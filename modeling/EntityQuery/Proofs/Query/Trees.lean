import EntityQuery.Proofs.Query.Construction
import EntityQuery.Proofs.Schema.Fields
import EntityQuery.Proofs.Schema.Paths
import EntityQuery.Proofs.SelectTree.Union

/-!
# The trees of a query

The trees of a query are built by wanting fields and by changing the trees of
relationships, along paths, along projections and along everything within reach. So they
are tidy, they never expand the identity unless a relationship is named like it, and what
must be fetched reaches every path that the filter and the order read.
-/

namespace EntityQuery

open SelectTree

/-- A path lies along another one: it ends on the way there, or at the identity of a
record that the way goes through. -/
def Along (segments path : List String) : Prop :=
  path <+: segments ∨ ∃ front, front ≠ [] ∧ front <+: segments ∧ front ≠ segments ∧
    path = front ++ [identityField]

/-- A path lies along itself. -/
theorem Along.refl (segments : List String) : Along segments segments := .inl List.prefix_rfl

/-- Nothing but its one segment lies along a short path. -/
theorem along_singleton {name : String} {path : List String} (hpath : path ≠ []) :
    Along [name] path ↔ path = [name] := by
  have hwhole : ∀ {front : List String}, front ≠ [] → front <+: [name] → front = [name] := by
    intro front hfront hstart
    obtain ⟨back, rfl, hback⟩ := (List.prefix_cons_iff.mp hstart).resolve_left hfront
    rw [List.prefix_nil.mp hback]
  constructor
  · rintro (hstart | ⟨front, hfront, hstart, hne, _⟩)
    · exact hwhole hpath hstart
    · exact absurd (hwhole hfront hstart) hne
  · rintro rfl
    exact .refl _

/-- What lies along a longer path. -/
theorem along_cons {segment : String} {rest path : List String} (hrest : rest ≠ [])
    (hpath : path ≠ []) :
    Along (segment :: rest) path ↔ path = [segment] ∨
      ∃ back, back ≠ [] ∧ path = segment :: back ∧ (back = [identityField] ∨ Along rest back) := by
  constructor
  · rintro (hstart | ⟨front, hfront, hstart, hne, rfl⟩)
    · obtain ⟨back, rfl, hback⟩ := (List.prefix_cons_iff.mp hstart).resolve_left hpath
      by_cases hnil : back = []
      · exact .inl (by rw [hnil])
      · exact .inr ⟨back, hnil, rfl, .inr (.inl hback)⟩
    · obtain ⟨back, rfl, hback⟩ := (List.prefix_cons_iff.mp hstart).resolve_left hfront
      refine .inr ⟨back ++ [identityField], by simp, rfl, ?_⟩
      by_cases hnil : back = []
      · exact .inl (by rw [hnil, List.nil_append])
      · exact .inr (.inr ⟨back, hnil, hback, fun heq => hne (by rw [heq]), rfl⟩)
  · rintro (rfl | ⟨back, hback, rfl, rfl | hstart | ⟨front, hfront, hstart, hne, rfl⟩⟩)
    · exact .inl (List.prefix_cons_iff.mpr (.inr ⟨[], rfl, List.nil_prefix⟩))
    · exact .inr ⟨[segment], by simp, List.prefix_cons_iff.mpr (.inr ⟨[], rfl, List.nil_prefix⟩),
        by simpa using Ne.symm hrest, rfl⟩
    · exact .inl (List.prefix_cons_iff.mpr (.inr ⟨back, rfl, hstart⟩))
    · exact .inr ⟨segment :: front, by simp,
        List.prefix_cons_iff.mpr (.inr ⟨front, rfl, hstart⟩), by simpa using hne, rfl⟩

/-- A tidy tree that reaches a path reaches all that lies along it. -/
theorem covers_of_along {tree : SelectTree} {segments path : List String}
    (htree : Everywhere Tidy tree) (hcovers : tree.covers segments = true) (hpath : path ≠ [])
    (h : Along segments path) : tree.covers path = true := by
  induction segments generalizing tree path with
  | nil =>
    rcases h with hstart | ⟨front, hfront, hstart, _⟩
    · exact absurd (List.prefix_nil.mp hstart) hpath
    · exact absurd (List.prefix_nil.mp hstart) hfront
  | cons segment rest ih =>
    by_cases hrest : rest = []
    · subst hrest
      rw [(along_singleton hpath).mp h]
      exact hcovers
    · obtain ⟨child, hchild, hbelow⟩ := (covers_cons hrest).mp hcovers
      rcases (along_cons hrest hpath).mp h with rfl | ⟨back, hback, rfl, hwhere⟩
      · exact (covers_singleton tree segment).mpr
          (htree.here.expanded_selected _ (Entries.mem_of_get? hchild))
      · refine (covers_cons hback).mpr ⟨child, hchild, ?_⟩
        rcases hwhere with rfl | halong
        · exact (covers_singleton child identityField).mpr (htree.child hchild).here.identity_mem
        · exact ih (htree.child hchild) hbelow hback halong

/-- A path lies along one of some paths that are given as texts. -/
def AlongSome (named : List String) (path : List String) : Prop :=
  ∃ text ∈ named, ∃ segments, Schema.pathSegments text = .ok segments ∧ Along segments path

/-- The first path and the others. -/
theorem alongSome_cons {text : String} {named segments path : List String}
    (hsegments : Schema.pathSegments text = .ok segments) :
    AlongSome (text :: named) path ↔ Along segments path ∨ AlongSome named path := by
  simp [AlongSome, hsegments]

namespace Schema

variable {schema : Schema} {allowed : String → Prop} {P : SelectTree → Prop}

/-- A fresh tree wants nothing but the identity. -/
theorem freshTree_eq_ok {field : Field} {fresh : SelectTree}
    (h : schema.freshTree field = .ok fresh) :
    ∃ keyName, schema.keyNameOf field.target = .ok keyName ∧
      fresh = .root field.target keyName field.flags? := by
  obtain ⟨keyName, hkey, hfresh⟩ := bind_eq_ok_iff.mp h
  exact ⟨keyName, hkey, (pure_eq_ok_iff.mp hfresh).symm⟩

/-- The first segment of a longer path is a relationship whose tree is changed. -/
theorem addPath_cons_eq_ok {type segment : String} {rest : List String} {tree out : SelectTree}
    (hrest : rest ≠ []) (h : schema.addPath type (segment :: rest) tree = .ok out) :
    ∃ field fresh, schema.resolve type segment = .ok field ∧ field.isRelationship = true ∧
      schema.freshTree field = .ok fresh ∧
      tree.expandWith segment fresh (schema.addPath field.target rest) = .ok out := by
  cases rest with
  | nil => exact absurd rfl hrest
  | cons next rest =>
    rw [addPath] at h
    · obtain ⟨field, hfield, h⟩ := bind_eq_ok_iff.mp h
      cases hrelationship : field.isRelationship with
      | false => simp [hrelationship] at h
      | true =>
        simp only [hrelationship, Bool.not_true, Bool.false_eq_true, if_false] at h
        obtain ⟨fresh, hfresh, h⟩ := bind_eq_ok_iff.mp h
        exact ⟨field, fresh, hfield, hrelationship, hfresh, h⟩
    · simp

/-- The one segment of a short path is wanted. -/
theorem addPath_singleton_eq_ok {type name : String} {tree out : SelectTree}
    (h : schema.addPath type [name] tree = .ok out) :
    (∃ field, schema.resolve type name = .ok field) ∧ tree.addSelect name = out := by
  obtain ⟨field, hfield, h⟩ := bind_eq_ok_iff.mp h
  exact ⟨⟨field, hfield⟩, pure_eq_ok_iff.mp h⟩

/-- Wanting the field at a path keeps what building keeps. -/
theorem everywhere_addPath (kept : KeptByBuilding allowed P)
    (hallowed : ∀ name, name ≠ identityField → allowed name) {type : String}
    {segments : List String} {tree out : SelectTree}
    (h : schema.addPath type segments tree = .ok out) (htree : Everywhere P tree) :
    Everywhere P out := by
  induction segments generalizing type tree out with
  | nil =>
    obtain rfl := Except.ok.inj h
    exact htree
  | cons segment rest ih =>
    by_cases hrest : rest = []
    · subst hrest
      obtain ⟨_, rfl⟩ := addPath_singleton_eq_ok h
      exact kept.everywhere_addSelect htree segment
    · obtain ⟨field, fresh, hfield, hrelationship, hfresh, h⟩ := addPath_cons_eq_ok hrest h
      obtain ⟨keyName, _, rfl⟩ := freshTree_eq_ok hfresh
      exact kept.everywhere_expandWith htree
        (hallowed segment (ne_identityField_of_resolve hfield hrelationship))
        (kept.everywhere_root _ _ _) (fun before after => ih) h

/-- Wanting the field at a path adds the paths that lie along it and no others. -/
theorem covers_addPath {type : String} {segments : List String} {tree out : SelectTree}
    (hsegments : segments ≠ []) (h : schema.addPath type segments tree = .ok out)
    (htree : Everywhere Tidy tree) {path : List String} (hpath : path ≠ []) :
    out.covers path = true ↔ tree.covers path = true ∨ Along segments path := by
  induction segments generalizing type tree out path with
  | nil => exact absurd rfl hsegments
  | cons segment rest ih =>
    by_cases hrest : rest = []
    · subst hrest
      obtain ⟨_, rfl⟩ := addPath_singleton_eq_ok h
      rw [covers_addSelect, along_singleton hpath]
    · obtain ⟨field, fresh, _, _, hfresh, h⟩ := addPath_cons_eq_ok hrest h
      obtain ⟨keyName, _, rfl⟩ := freshTree_eq_ok hfresh
      rw [covers_expandWith htree (fun _ => covers_root) ?_ h hpath, along_cons hrest hpath]
      intro before after hchange hbefore path hpath
      refine ih hrest hchange ?_ hpath
      rw [hbefore]
      exact htree.childOr segment ((tidy_keptByBuilding fun _ => True).everywhere_root _ _ _)

/-- Wanting a field of a projection wants a scalar or changes the tree of a relationship. -/
theorem addProjected_eq_ok {type : String} {projected : ProjectedField} {tree out : SelectTree}
    (h : schema.addProjected type projected tree = .ok out) :
    ∃ field, schema.resolve type projected.name = .ok field ∧
      (projected.kind = .scalar ∧ tree.addSelect projected.name = out ∨
        projected.kind ≠ .scalar ∧ field.isRelationship = true ∧
          ∃ fresh, schema.freshTree field = .ok fresh ∧
            tree.expandWith projected.name fresh
              (schema.addProjectedAll field.target projected.fields) = .ok out) := by
  obtain ⟨name, kind, caption, fields⟩ := projected
  rw [addProjected] at h
  obtain ⟨field, hfield, h⟩ := bind_eq_ok_iff.mp h
  refine ⟨field, hfield, ?_⟩
  cases kind with
  | scalar => exact .inl ⟨rfl, pure_eq_ok_iff.mp h⟩
  | belongsTo | hasMany =>
    cases hrelationship : field.isRelationship with
    | false => simp [hrelationship] at h
    | true =>
      simp only [hrelationship, Bool.not_true, Bool.false_eq_true, if_false] at h
      obtain ⟨fresh, hfresh, h⟩ := bind_eq_ok_iff.mp h
      exact .inr ⟨FieldKind.noConfusion, rfl, fresh, hfresh, h⟩

/-- Wanting the field at a path leaves the type of the tree. -/
theorem entityType_addPath {type : String} {segments : List String} {tree out : SelectTree}
    (h : schema.addPath type segments tree = .ok out) : out.entityType = tree.entityType := by
  cases segments with
  | nil => rw [Except.ok.inj h]
  | cons segment rest =>
    by_cases hrest : rest = []
    · subst hrest
      obtain ⟨_, rfl⟩ := addPath_singleton_eq_ok h
      rfl
    · obtain ⟨_, _, _, _, _, h⟩ := addPath_cons_eq_ok hrest h
      exact entityType_expandWith h

/-- Wanting the fields of a projection leaves the type of the tree. -/
theorem entityType_addProjectedAll {type : String} {fields : List ProjectedField}
    {tree out : SelectTree} (h : schema.addProjectedAll type fields tree = .ok out) :
    out.entityType = tree.entityType := by
  induction fields generalizing tree with
  | nil =>
    rw [addProjectedAll] at h
    rw [Except.ok.inj h]
  | cons field fields ih =>
    rw [addProjectedAll] at h
    obtain ⟨next, hnext, h⟩ := bind_eq_ok_iff.mp h
    have hfirst : next.entityType = tree.entityType := by
      obtain ⟨_, _, ⟨_, rfl⟩ | ⟨_, _, _, _, hexpand⟩⟩ := addProjected_eq_ok hnext
      · rfl
      · exact entityType_expandWith hexpand
    exact (ih h).trans hfirst

mutual

/-- Wanting a field of a projection keeps what building keeps. -/
theorem everywhere_addProjected (kept : KeptByBuilding allowed P)
    (hallowed : ∀ name, name ≠ identityField → allowed name) {type : String} :
    ∀ (projected : ProjectedField) {tree out : SelectTree},
      schema.addProjected type projected tree = .ok out → Everywhere P tree → Everywhere P out
  | ⟨name, kind, caption, fields⟩, tree, out, h, htree => by
    obtain ⟨field, hfield, ⟨_, rfl⟩ | ⟨_, hrelationship, fresh, hfresh, h⟩⟩ :=
      addProjected_eq_ok h
    · exact kept.everywhere_addSelect htree name
    · obtain ⟨keyName, _, rfl⟩ := freshTree_eq_ok hfresh
      exact kept.everywhere_expandWith htree
        (hallowed name (ne_identityField_of_resolve hfield hrelationship))
        (kept.everywhere_root _ _ _)
        (fun before after => everywhere_addProjectedAll kept hallowed fields) h

/-- Wanting the fields of a projection keeps what building keeps. -/
theorem everywhere_addProjectedAll (kept : KeptByBuilding allowed P)
    (hallowed : ∀ name, name ≠ identityField → allowed name) {type : String} :
    ∀ (fields : List ProjectedField) {tree out : SelectTree},
      schema.addProjectedAll type fields tree = .ok out → Everywhere P tree → Everywhere P out
  | [], tree, out, h, htree => by
    rw [addProjectedAll] at h
    obtain rfl := Except.ok.inj h
    exact htree
  | field :: fields, tree, out, h, htree => by
    rw [addProjectedAll] at h
    obtain ⟨next, hnext, h⟩ := bind_eq_ok_iff.mp h
    exact everywhere_addProjectedAll kept hallowed fields h
      (everywhere_addProjected kept hallowed field hnext htree)

end

/-- Wanting the fields of a list keeps what building keeps. -/
theorem everywhere_foldl_addSelect (kept : KeptByBuilding allowed P) (listed : List Field)
    {tree : SelectTree} (htree : Everywhere P tree) :
    Everywhere P (listed.foldl (fun tree field => tree.addSelect field.name) tree) := by
  induction listed generalizing tree with
  | nil => exact htree
  | cons field listed ih => exact ih (kept.everywhere_addSelect htree field.name)

/-- Wanting every field keeps what building keeps. -/
theorem everywhere_addClosure (kept : KeptByBuilding allowed P)
    (hallowed : ∀ {type : String} {listed : List Field}, schema.fields type = .ok listed →
      ∀ field ∈ listed, field.isRelationship = true → allowed field.name)
    {depth : Nat} {type : String} {tree out : SelectTree}
    (h : schema.addClosure depth type tree = .ok out) (htree : Everywhere P tree) :
    Everywhere P out := by
  induction depth generalizing type tree out with
  | zero =>
    rw [addClosure] at h
    obtain ⟨listed, hlisted, h⟩ := bind_eq_ok_iff.mp h
    obtain rfl := pure_eq_ok_iff.mp h
    exact everywhere_foldl_addSelect kept listed htree
  | succ depth ih =>
    rw [addClosure] at h
    obtain ⟨listed, hlisted, h⟩ := bind_eq_ok_iff.mp h
    refine foldlM_induction h htree fun field hfield before after hstep hbefore => ?_
    cases hrelationship : field.isRelationship with
    | false =>
      simp only [hrelationship, Bool.false_eq_true, if_false, pure_eq_ok_iff] at hstep
      subst hstep
      exact kept.everywhere_addSelect hbefore field.name
    | true =>
      simp only [hrelationship, if_true] at hstep
      obtain ⟨fresh, hfresh, hstep⟩ := bind_eq_ok_iff.mp hstep
      obtain ⟨keyName, _, rfl⟩ := freshTree_eq_ok hfresh
      exact kept.everywhere_expandWith hbefore (hallowed hlisted field hfield hrelationship)
        (kept.everywhere_root _ _ _) (fun before after => ih) hstep

end Schema

namespace Draft

variable {schema : Schema} {allowed : String → Prop} {P : SelectTree → Prop}

/-- Wanting the fields of a projection keeps what building keeps. -/
theorem everywhere_addProjection (kept : KeptByBuilding allowed P)
    (hallowed : ∀ name, name ≠ identityField → allowed name) {draft : Draft} {type : String}
    {tree out : SelectTree} (h : draft.addProjection schema type tree = .ok out)
    (htree : Everywhere P tree) : Everywhere P out := by
  unfold addProjection at h
  cases hname : draft.projectionName with
  | none =>
    simp only [hname, Except.ok.injEq] at h
    exact h ▸ htree
  | some name =>
    simp only [hname] at h
    obtain ⟨projection, _, h⟩ := bind_eq_ok_iff.mp h
    exact Schema.everywhere_addProjectedAll kept hallowed projection.fields h htree

/-- Wanting the fields at paths keeps what building keeps. -/
theorem everywhere_addPaths (kept : KeptByBuilding allowed P)
    (hallowed : ∀ name, name ≠ identityField → allowed name) {type : String}
    {paths : List String} {tree out : SelectTree}
    (h : addPaths schema type paths tree = .ok out) (htree : Everywhere P tree) :
    Everywhere P out := by
  refine foldlM_induction h htree fun path _ before after hstep hbefore => ?_
  obtain ⟨segments, _, hstep⟩ := bind_eq_ok_iff.mp hstep
  exact Schema.everywhere_addPath kept hallowed hstep hbefore

/-- A path that is missing is added, and one that is reached changes nothing. -/
theorem addMissingPaths_cons {type path : String} {paths : List String}
    {selected tree out : SelectTree}
    (h : addMissingPaths schema type selected (path :: paths) tree = .ok out) :
    ∃ segments next, Schema.pathSegments path = .ok segments ∧
      (((selected.covers segments || tree.covers segments) = true ∧ next = tree) ∨
        schema.addPath type segments tree = .ok next) ∧
      addMissingPaths schema type selected paths next = .ok out := by
  rw [addMissingPaths, List.foldlM_cons] at h
  obtain ⟨next, hnext, h⟩ := bind_eq_ok_iff.mp h
  obtain ⟨segments, hsegments, hnext⟩ := bind_eq_ok_iff.mp hnext
  refine ⟨segments, next, hsegments, ?_, h⟩
  cases hcovers : selected.covers segments || tree.covers segments with
  | true =>
    simp only [hcovers, if_true, pure_eq_ok_iff] at hnext
    exact .inl ⟨rfl, hnext.symm⟩
  | false =>
    simp only [hcovers, Bool.false_eq_true, if_false] at hnext
    exact .inr hnext

/-- Paths that could be added have segments. -/
theorem exists_segments_of_addMissingPaths {type : String} {paths : List String}
    {selected tree out : SelectTree}
    (h : addMissingPaths schema type selected paths tree = .ok out) {path : String}
    (hpath : path ∈ paths) : ∃ segments, Schema.pathSegments path = .ok segments := by
  induction paths generalizing tree with
  | nil => cases hpath
  | cons first paths ih =>
    obtain ⟨segments, next, hsegments, _, hrest⟩ := addMissingPaths_cons h
    rcases List.mem_cons.mp hpath with rfl | hmem
    · exact ⟨segments, hsegments⟩
    · exact ih hrest hmem

/-- Adding missing paths keeps what building keeps. -/
theorem everywhere_addMissingPaths (kept : KeptByBuilding allowed P)
    (hallowed : ∀ name, name ≠ identityField → allowed name) {type : String}
    {paths : List String} {selected tree out : SelectTree}
    (h : addMissingPaths schema type selected paths tree = .ok out)
    (htree : Everywhere P tree) : Everywhere P out := by
  induction paths generalizing tree with
  | nil =>
    obtain rfl := pure_eq_ok_iff.mp h
    exact htree
  | cons path paths ih =>
    obtain ⟨segments, next, _, ⟨_, rfl⟩ | hadded, hrest⟩ := addMissingPaths_cons h
    · exact ih hrest htree
    · exact ih hrest (Schema.everywhere_addPath kept hallowed hadded htree)

/-- After adding missing paths, both trees together reach what they reached before and what
lies along the paths. A path that is passed over is reached already, and so is all that lies
along it. -/
theorem covers_addMissingPaths {type : String} {paths : List String}
    {selected tree out : SelectTree}
    (h : addMissingPaths schema type selected paths tree = .ok out)
    (hselected : Everywhere Tidy selected) (htree : Everywhere Tidy tree) {path : List String}
    (hpath : path ≠ []) :
    selected.covers path = true ∨ out.covers path = true ↔
      (selected.covers path = true ∨ tree.covers path = true) ∨ AlongSome paths path := by
  induction paths generalizing tree with
  | nil =>
    obtain rfl := pure_eq_ok_iff.mp h
    simp [AlongSome]
  | cons first paths ih =>
    obtain ⟨segments, next, hsegments, hnext, hrest⟩ := addMissingPaths_cons h
    rw [alongSome_cons hsegments, ← or_assoc]
    rcases hnext with ⟨hcovers, rfl⟩ | hadded
    · rw [ih hrest htree]
      have hreached : Along segments path →
          selected.covers path = true ∨ next.covers path = true := by
        intro halong
        rcases Bool.or_eq_true_iff.mp hcovers with hfirst | hfirst
        · exact .inl (covers_of_along hselected hfirst hpath halong)
        · exact .inr (covers_of_along htree hfirst hpath halong)
      rw [or_iff_left_of_imp hreached]
    · rw [ih hrest (Schema.everywhere_addPath (tidy_keptByBuilding fun _ => True)
        (fun _ _ => trivial) hadded htree),
        Schema.covers_addPath (Schema.pathSegments_ne_nil hsegments) hadded htree hpath]
      simp only [or_assoc]

/-- Wanting what is within reach keeps what building keeps. -/
theorem everywhere_reachTree (kept : KeptByBuilding allowed P) {draft : Draft}
    (hclosure : draft.selectMode = .all → ∀ {type : String} {listed : List Field},
      schema.fields type = .ok listed →
        ∀ field ∈ listed, field.isRelationship = true → allowed field.name)
    {settings : BuildSettings} {root out : SelectTree}
    (h : draft.reachTree schema settings root = .ok out) (hroot : Everywhere P root) :
    Everywhere P out := by
  unfold reachTree at h
  by_cases hall : draft.selectMode = .all
  · rw [if_pos hall] at h
    exact Schema.everywhere_addClosure kept (hclosure hall) h hroot
  · rw [if_neg hall] at h
    exact Except.ok.inj h ▸ hroot

/-- Both trees of a built query have at every node what building keeps. -/
theorem everywhere_of_build (kept : KeptByBuilding allowed P)
    (hallowed : ∀ name, name ≠ identityField → allowed name) {draft : Draft}
    (hclosure : draft.selectMode = .all → ∀ {type : String} {listed : List Field},
      schema.fields type = .ok listed →
        ∀ field ∈ listed, field.isRelationship = true → allowed field.name)
    {settings : BuildSettings} {query : Query} (h : draft.build schema settings = .ok query) :
    Everywhere P query.selectTree ∧ Everywhere P query.extendTree := by
  obtain ⟨keyName, selectStart, extendStart, trace⟩ := exists_trace_of_build h
  have hroot : Everywhere P (.root query.entityType keyName) := kept.everywhere_root _ _ _
  have hselectStart := everywhere_addProjection kept hallowed trace.projected hroot
  have hextendStart := everywhere_reachTree kept hclosure trace.reached hroot
  exact ⟨everywhere_addPaths kept hallowed trace.selected hselectStart,
    everywhere_addMissingPaths kept hallowed trace.extended hextendStart⟩

/-- Both trees of a built query are tidy. -/
theorem tidy_of_build {draft : Draft} {settings : BuildSettings} {query : Query}
    (h : draft.build schema settings = .ok query) :
    Everywhere Tidy query.selectTree ∧ Everywhere Tidy query.extendTree :=
  everywhere_of_build (tidy_keptByBuilding fun _ => True) (fun _ _ => trivial)
    (fun _ _ _ _ _ _ _ => trivial) h

/-- What must be fetched for a built query is tidy. -/
theorem tidy_fetchTree {draft : Draft} {settings : BuildSettings} {query : Query}
    (h : draft.build schema settings = .ok query) : Everywhere Tidy query.fetchTree := by
  obtain ⟨hselect, hextend⟩ := tidy_of_build h
  exact hselect.tidy_merged hextend

/-- The trees of a built query never expand the identity, unless a relationship of the schema
has its name and everything within reach is wanted. -/
theorem keepsIdentity_of_build {draft : Draft} {settings : BuildSettings} {query : Query}
    (hschema : draft.selectMode = .all → schema.NoRelationshipNamed identityField)
    (h : draft.build schema settings = .ok query) :
    Everywhere KeepsIdentity query.selectTree ∧ Everywhere KeepsIdentity query.extendTree ∧
      Everywhere KeepsIdentity query.fetchTree := by
  obtain ⟨hselectTidy, hextendTidy⟩ := tidy_of_build h
  obtain ⟨hselect, hextend⟩ := everywhere_of_build keepsIdentity_keptByBuilding
    (fun _ hname => hname)
    (fun hall _ _ hlisted _ hfield =>
      Schema.name_ne_of_mem_fields (hschema hall) hlisted hfield) h
  have hboth := Everywhere.merged (P := fun tree => tree.Tidy ∧ tree.KeepsIdentity)
    (fun _ hnode => hnode.1.ordered)
    (fun _ _ hfirst hsecond => ⟨hfirst.1.merged hsecond.1,
      hfirst.2.merged hsecond.2 hfirst.1.ordered hsecond.1.ordered⟩)
    (hselectTidy.and hselect) (hextendTidy.and hextend)
  exact ⟨hselect, hextend, hboth.imp fun _ hnode => hnode.2⟩

/-- What must be fetched never expands the identity, unless a relationship of the schema
has its name. -/
theorem keepsIdentity_fetchTree (hschema : schema.NoRelationshipNamed identityField)
    {draft : Draft} {settings : BuildSettings} {query : Query}
    (h : draft.build schema settings = .ok query) :
    Everywhere KeepsIdentity query.fetchTree :=
  (keepsIdentity_of_build (fun _ => hschema) h).2.2

/-- Wanting the fields of a projection leaves the type of the tree. -/
theorem entityType_addProjection {draft : Draft} {type : String} {tree out : SelectTree}
    (h : draft.addProjection schema type tree = .ok out) : out.entityType = tree.entityType := by
  unfold addProjection at h
  cases hname : draft.projectionName with
  | none =>
    simp only [hname, Except.ok.injEq] at h
    rw [h]
  | some name =>
    simp only [hname] at h
    obtain ⟨projection, _, h⟩ := bind_eq_ok_iff.mp h
    exact Schema.entityType_addProjectedAll h

/-- Wanting the fields at paths leaves the type of the tree. -/
theorem entityType_addPaths {type : String} {paths : List String} {tree out : SelectTree}
    (h : addPaths schema type paths tree = .ok out) : out.entityType = tree.entityType := by
  refine foldlM_induction (motive := fun before => before.entityType = tree.entityType) h rfl
    fun path _ before after hstep hbefore => ?_
  obtain ⟨segments, _, hstep⟩ := bind_eq_ok_iff.mp hstep
  exact (Schema.entityType_addPath hstep).trans hbefore

/-- What must be fetched is fetched from records of the queried type. -/
theorem entityType_fetchTree {draft : Draft} {settings : BuildSettings} {query : Query}
    (h : draft.build schema settings = .ok query) :
    query.fetchTree.entityType = query.entityType := by
  obtain ⟨keyName, selectStart, extendStart, trace⟩ := exists_trace_of_build h
  have hselect : query.selectTree.entityType = selectStart.entityType :=
    entityType_addPaths trace.selected
  have hstart : selectStart.entityType = query.entityType :=
    entityType_addProjection trace.projected
  rw [Query.fetchTree, entityType_merged, hselect, hstart]

/-- What must be fetched reaches what one of the trees of the query reaches. -/
theorem covers_fetchTree_iff {draft : Draft} {settings : BuildSettings} {query : Query}
    (h : draft.build schema settings = .ok query) {path : List String} (hpath : path ≠ []) :
    query.fetchTree.covers path = true ↔
      query.selectTree.covers path = true ∨ query.extendTree.covers path = true := by
  obtain ⟨hselect, hextend⟩ := tidy_of_build h
  exact covers_merged hpath hselect.inOrder hextend.inOrder

/-- The paths that the filter and the order of a built query read have segments. -/
theorem exists_segments_of_mem_referencedPaths {draft : Draft} {settings : BuildSettings}
    {query : Query} (h : draft.build schema settings = .ok query) {path : String}
    (hpath : path ∈ draft.referencedPaths) :
    ∃ segments, Schema.pathSegments path = .ok segments := by
  obtain ⟨keyName, selectStart, extendStart, trace⟩ := exists_trace_of_build h
  exact exists_segments_of_addMissingPaths trace.extended hpath

/-- What must be fetched reaches every path that the filter and the order read. -/
theorem covers_fetchTree {draft : Draft} {settings : BuildSettings} {query : Query}
    (h : draft.build schema settings = .ok query) {path : String}
    (hpath : path ∈ draft.referencedPaths) {segments : List String}
    (hsegments : Schema.pathSegments path = .ok segments) :
    query.fetchTree.covers segments = true := by
  have hnil := Schema.pathSegments_ne_nil hsegments
  obtain ⟨keyName, selectStart, extendStart, trace⟩ := exists_trace_of_build h
  have hkept := tidy_keptByBuilding fun _ => True
  have hextendStart := everywhere_reachTree hkept (fun _ _ _ _ _ _ _ => trivial) trace.reached
    (hkept.everywhere_root _ _ _)
  rw [covers_fetchTree_iff h hnil,
    covers_addMissingPaths trace.extended (tidy_of_build h).1 hextendStart hnil]
  exact .inr ⟨path, hpath, segments, hsegments, .refl _⟩

end Draft

/-- The answer has the shape of what was asked for or of what must be fetched, so it has what
both of them have. -/
theorem Query.outputTree_of_both {query : Query} {P : SelectTree → Prop}
    (hselect : P query.selectTree) (hfetch : P query.fetchTree) : P query.outputTree := by
  unfold Query.outputTree
  cases query.selectMode with
  | all => exact hfetch
  | projection | explicit => exact hselect

/-- No relationship of the sample is named like the identity. -/
theorem Sample.noRelationshipNamed_identityField :
    Sample.schema.NoRelationshipNamed identityField := by
  intro entry hentry relationship hrelationship
  simp only [Sample.schema, List.mem_cons, List.not_mem_nil, or_false] at hentry
  rcases hentry with rfl | rfl
  · simp only [List.mem_cons, List.not_mem_nil, or_false] at hrelationship
    rcases hrelationship with rfl | rfl <;> decide
  · cases hrelationship

end EntityQuery
