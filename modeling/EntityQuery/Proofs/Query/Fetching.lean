import EntityQuery.Proofs.Query.Trees

/-!
# What a query fetches

A query that makes a choice of fields fetches what it names and what comes along with that,
and nothing else. Along with a path come the paths on the way to it and the identities of the
records that the way goes through; a relationship entry of a projection brings the identity of
its records even if nothing is wanted below it.

Three walks build the trees: along the entries of a projection, along the paths that were
asked for, and along those paths of the filter and the order that nothing else reaches. For
each of them the paths that it adds are described here, and the description of a tree is put
together from those of the walks.
-/

namespace EntityQuery

open SelectTree

namespace ProjectedField

/-- The fields of a projection have an entry at a path, which leads to something of a kind.
The entries below a scalar entry are not looked at. -/
inductive HasEntry : List ProjectedField → List String → FieldKind → Prop where
  /-- Every field is an entry. -/
  | field {fields : List ProjectedField} {projected : ProjectedField} (h : projected ∈ fields) :
      HasEntry fields [projected.name] projected.kind
  /-- The entries of a relationship are found below it. -/
  | nested {fields : List ProjectedField} {projected : ProjectedField} {path : List String}
      {kind : FieldKind} (h : projected ∈ fields) (hrelated : projected.kind ≠ .scalar)
      (hbelow : HasEntry projected.fields path kind) :
      HasEntry fields (projected.name :: path) kind

namespace HasEntry

variable {fields : List ProjectedField} {projected : ProjectedField} {path front : List String}
  {kind : FieldKind}

/-- No entry is at the empty path. -/
theorem ne_nil (h : HasEntry fields path kind) : path ≠ [] := by
  cases h <;> exact List.cons_ne_nil _ _

/-- An entry of a list is one of the first field or of the others. -/
theorem cons_iff :
    HasEntry (projected :: fields) path kind ↔
      HasEntry [projected] path kind ∨ HasEntry fields path kind := by
  constructor
  · intro h
    cases h with
    | field hmem =>
      rcases List.mem_cons.mp hmem with rfl | hmem
      · exact .inl (.field (List.mem_singleton_self _))
      · exact .inr (.field hmem)
    | nested hmem hrelated hbelow =>
      rcases List.mem_cons.mp hmem with rfl | hmem
      · exact .inl (.nested (List.mem_singleton_self _) hrelated hbelow)
      · exact .inr (.nested hmem hrelated hbelow)
  · rintro (h | h)
    · cases h with
      | field hmem =>
        rw [List.mem_singleton.mp hmem]
        exact .field List.mem_cons_self
      | nested hmem hrelated hbelow =>
        rw [List.mem_singleton.mp hmem] at hrelated hbelow ⊢
        exact .nested List.mem_cons_self hrelated hbelow
    · cases h with
      | field hmem => exact .field (List.mem_cons_of_mem _ hmem)
      | nested hmem hrelated hbelow => exact .nested (List.mem_cons_of_mem _ hmem) hrelated hbelow

/-- An entry of a single field is the field itself or stands below it. -/
theorem singleton_iff :
    HasEntry [projected] path kind ↔ (path = [projected.name] ∧ kind = projected.kind) ∨
      projected.kind ≠ .scalar ∧
        ∃ rest, path = projected.name :: rest ∧ HasEntry projected.fields rest kind := by
  constructor
  · intro h
    cases h with
    | field hmem =>
      rw [List.mem_singleton.mp hmem]
      exact .inl ⟨rfl, rfl⟩
    | nested hmem hrelated hbelow =>
      rw [List.mem_singleton.mp hmem] at hrelated hbelow ⊢
      exact .inr ⟨hrelated, _, rfl, hbelow⟩
  · rintro (⟨rfl, rfl⟩ | ⟨hrelated, rest, rfl, hbelow⟩)
    · exact .field (List.mem_singleton_self _)
    · exact .nested (List.mem_singleton_self _) hrelated hbelow

/-- On the way to an entry there are relationship entries only. -/
theorem exists_of_prefix (h : HasEntry fields path kind) (hfront : front ≠ [])
    (hstart : front <+: path) :
    ∃ found, HasEntry fields front found ∧ (front ≠ path → found ≠ .scalar) := by
  induction h generalizing front with
  | @field fields projected hmem =>
    obtain ⟨back, rfl, hback⟩ := (List.prefix_cons_iff.mp hstart).resolve_left hfront
    obtain rfl := List.prefix_nil.mp hback
    exact ⟨projected.kind, .field hmem, fun hne => absurd rfl hne⟩
  | @nested fields projected path kind hmem hrelated hbelow ih =>
    obtain ⟨back, rfl, hback⟩ := (List.prefix_cons_iff.mp hstart).resolve_left hfront
    by_cases hnil : back = []
    · subst hnil
      exact ⟨projected.kind, .field hmem, fun _ => hrelated⟩
    · obtain ⟨found, hfound, hscalar⟩ := ih hnil hback
      exact ⟨found, .nested hmem hrelated hfound, fun hne => hscalar fun heq => hne (by rw [heq])⟩

end HasEntry

/-- The fields of a projection bring a path into a tree: the path of an entry, or that of the
identity below a relationship entry. -/
def Brings (fields : List ProjectedField) (path : List String) : Prop :=
  ∃ entry kind, HasEntry fields entry kind ∧
    (path = entry ∨ kind ≠ .scalar ∧ path = entry ++ [identityField])

/-- What a list brings is brought by the first field or by the others. -/
theorem brings_cons {projected : ProjectedField} {fields : List ProjectedField}
    {path : List String} :
    Brings (projected :: fields) path ↔ Brings [projected] path ∨ Brings fields path := by
  constructor
  · rintro ⟨entry, kind, hentry, hpath⟩
    rcases HasEntry.cons_iff.mp hentry with hfirst | hother
    · exact .inl ⟨entry, kind, hfirst, hpath⟩
    · exact .inr ⟨entry, kind, hother, hpath⟩
  · rintro (⟨entry, kind, hfirst, hpath⟩ | ⟨entry, kind, hother, hpath⟩)
    · exact ⟨entry, kind, HasEntry.cons_iff.mpr (.inl hfirst), hpath⟩
    · exact ⟨entry, kind, HasEntry.cons_iff.mpr (.inr hother), hpath⟩

/-- A single field brings itself; a relationship brings the identity and its own fields below
itself. -/
theorem brings_singleton {projected : ProjectedField} {path : List String} :
    Brings [projected] path ↔ path = [projected.name] ∨ projected.kind ≠ .scalar ∧
      ∃ rest, rest ≠ [] ∧ path = projected.name :: rest ∧
        (rest = [identityField] ∨ Brings projected.fields rest) := by
  constructor
  · rintro ⟨entry, kind, hentry, hpath⟩
    rcases HasEntry.singleton_iff.mp hentry with ⟨rfl, rfl⟩ | ⟨hrelated, rest, rfl, hbelow⟩
    · rcases hpath with rfl | ⟨hrelated, rfl⟩
      · exact .inl rfl
      · exact .inr ⟨hrelated, [identityField], List.cons_ne_nil _ _, rfl, .inl rfl⟩
    · rcases hpath with rfl | ⟨hkind, rfl⟩
      · exact .inr ⟨hrelated, rest, hbelow.ne_nil, rfl, .inr ⟨rest, kind, hbelow, .inl rfl⟩⟩
      · exact .inr ⟨hrelated, rest ++ [identityField], by simp, rfl,
          .inr ⟨rest, kind, hbelow, .inr ⟨hkind, rfl⟩⟩⟩
  · rintro (rfl | ⟨hrelated, rest, _, rfl, rfl | ⟨entry, kind, hentry, hpath⟩⟩)
    · exact ⟨_, _, .field (List.mem_singleton_self _), .inl rfl⟩
    · exact ⟨_, _, .field (List.mem_singleton_self _), .inr ⟨hrelated, rfl⟩⟩
    · refine ⟨projected.name :: entry, kind,
        .nested (List.mem_singleton_self _) hrelated hentry, ?_⟩
      rcases hpath with rfl | ⟨hkind, rfl⟩
      · exact .inl rfl
      · exact .inr ⟨hkind, rfl⟩

/-- What a projection brings lies along its entries, or is an identity below a relationship
entry. -/
theorem brings_iff_along {fields : List ProjectedField} {path : List String} (hpath : path ≠ []) :
    Brings fields path ↔ (∃ entry kind, HasEntry fields entry kind ∧ Along entry path) ∨
      ∃ front, (∃ kind, HasEntry fields front kind ∧ kind ≠ .scalar) ∧
        path = front ++ [identityField] := by
  constructor
  · rintro ⟨entry, kind, hentry, rfl | ⟨hkind, rfl⟩⟩
    · exact .inl ⟨path, kind, hentry, .refl path⟩
    · exact .inr ⟨entry, ⟨kind, hentry, hkind⟩, rfl⟩
  · rintro (⟨entry, kind, hentry, hstart | ⟨front, hfront, hstart, hne, rfl⟩⟩ |
      ⟨front, ⟨kind, hentry, hkind⟩, rfl⟩)
    · obtain ⟨found, hfound, _⟩ := hentry.exists_of_prefix hpath hstart
      exact ⟨path, found, hfound, .inl rfl⟩
    · obtain ⟨found, hfound, hscalar⟩ := hentry.exists_of_prefix hfront hstart
      exact ⟨front, found, hfound, .inr ⟨hscalar hne, rfl⟩⟩
    · exact ⟨front, kind, hentry, .inr ⟨hkind, rfl⟩⟩

end ProjectedField

open ProjectedField

namespace Schema

variable {schema : Schema}

mutual

/-- Wanting a field of a projection adds what the field brings. -/
theorem covers_addProjected {type : String} :
    ∀ (projected : ProjectedField) {tree out : SelectTree} {path : List String},
      schema.addProjected type projected tree = .ok out → Everywhere Tidy tree → path ≠ [] →
        (out.covers path = true ↔ tree.covers path = true ∨ Brings [projected] path)
  | ⟨name, kind, caption, fields⟩, tree, out, path, h, htree, hpath => by
    rw [brings_singleton]
    obtain ⟨field, _, ⟨hkind, rfl⟩ | ⟨hkind, _, fresh, hfresh, h⟩⟩ := addProjected_eq_ok h
    · replace hkind : kind = .scalar := hkind
      rw [covers_addSelect]
      simp [hkind]
    · replace hkind : kind ≠ .scalar := hkind
      obtain ⟨keyName, _, rfl⟩ := freshTree_eq_ok hfresh
      have holdOrFresh : Everywhere Tidy
          ((Entries.get? tree.expand name).getD (.root field.target keyName field.flags?)) :=
        htree.childOr name ((tidy_keptByBuilding fun _ => True).everywhere_root _ _ _)
      rw [covers_expandWith htree (fun _ => covers_root) (fun before after hchange hbefore path =>
        covers_addProjectedAll fields hchange (hbefore ▸ holdOrFresh)) h hpath]
      simp [hkind]

/-- Wanting the fields of a projection adds what they bring. -/
theorem covers_addProjectedAll {type : String} :
    ∀ (fields : List ProjectedField) {tree out : SelectTree} {path : List String},
      schema.addProjectedAll type fields tree = .ok out → Everywhere Tidy tree → path ≠ [] →
        (out.covers path = true ↔ tree.covers path = true ∨ Brings fields path)
  | [], tree, out, path, h, htree, hpath => by
    rw [addProjectedAll] at h
    obtain rfl := Except.ok.inj h
    have hnone : ¬ Brings [] path := by
      rintro ⟨entry, kind, hentry, _⟩
      cases hentry <;> contradiction
    simp [hnone]
  | projected :: fields, tree, out, path, h, htree, hpath => by
    rw [addProjectedAll] at h
    obtain ⟨next, hnext, h⟩ := bind_eq_ok_iff.mp h
    have htidy := everywhere_addProjected (tidy_keptByBuilding fun _ => True)
      (fun _ _ => trivial) projected hnext htree
    rw [covers_addProjectedAll fields h htidy hpath,
      covers_addProjected projected hnext htree hpath, or_assoc, ← brings_cons]

end

end Schema

namespace Draft

variable {schema : Schema} {settings : BuildSettings} {draft : Draft} {query : Query}

/-- The projection that a draft asks for has an entry at a path. -/
def HasEntry (draft : Draft) (schema : Schema) (type : String) (path : List String)
    (kind : FieldKind) : Prop :=
  ∃ name projection, draft.projectionName = some name ∧
    schema.projection type name = .ok projection ∧
      ProjectedField.HasEntry projection.fields path kind

/-- The segments of the paths that a draft asks for: those of its list and the entries of its
projection. -/
inductive Asks (draft : Draft) (schema : Schema) (type : String) : List String → Prop where
  /-- A path of the list. -/
  | listed {path : String} {segments : List String} (hpath : path ∈ draft.select)
      (hsegments : Schema.pathSegments path = .ok segments) : Asks draft schema type segments
  /-- An entry of the projection. -/
  | projected {path : List String} {kind : FieldKind} (h : draft.HasEntry schema type path kind) :
      Asks draft schema type path

/-- The segments of the paths that a draft needs besides: those of its filter and those of its
order. -/
inductive Needs (draft : Draft) : List String → Prop where
  /-- A path that the filter reads. -/
  | filter {predicate : Predicate} {path : String} {segments : List String}
      (hfilter : draft.predicate = some predicate) (hpath : path ∈ predicate.paths)
      (hsegments : Schema.pathSegments path = .ok segments) : Needs draft segments
  /-- A path to sort by. -/
  | order {clause : OrderClause} {key : SortKey} {segments : List String}
      (horder : draft.order = some clause) (hkey : key ∈ clause.keys)
      (hsegments : Schema.pathSegments key.path = .ok segments) : Needs draft segments

/-- A relationship entry of the projection is at a path. -/
def Expands (draft : Draft) (schema : Schema) (type : String) (path : List String) : Prop :=
  ∃ kind, draft.HasEntry schema type path kind ∧ kind ≠ .scalar

end Draft

/-- A path comes along with named paths and expanded entries: it is one of the named paths or
on the way to one, or it is the identity of the record itself, of a record that the way to a
named path goes through, or of the records of an expanded entry. -/
def ComesAlong (named expanded : List String → Prop) (path : List String) : Prop :=
  (∃ segments, named segments ∧ path <+: segments) ∨
    ∃ front, path = front ++ [identityField] ∧
      (front = [] ∨ (∃ segments, named segments ∧ front <+: segments ∧ front ≠ segments) ∨
        expanded front)

/-- What comes along is the identity, lies along a named path, or is the identity of an
expanded entry. -/
theorem comesAlong_iff {named expanded : List String → Prop} {path : List String} :
    ComesAlong named expanded path ↔ path = [identityField] ∨
      (∃ segments, named segments ∧ Along segments path) ∨
        ∃ front, expanded front ∧ path = front ++ [identityField] := by
  constructor
  · rintro (⟨segments, hnamed, hstart⟩ | ⟨front, rfl, rfl | ⟨segments, hnamed, hstart, hne⟩ |
      hexpanded⟩)
    · exact .inr (.inl ⟨segments, hnamed, .inl hstart⟩)
    · exact .inl rfl
    · by_cases hfront : front = []
      · exact .inl (by rw [hfront, List.nil_append])
      · exact .inr (.inl ⟨segments, hnamed, .inr ⟨front, hfront, hstart, hne, rfl⟩⟩)
    · exact .inr (.inr ⟨front, hexpanded, rfl⟩)
  · rintro (rfl | ⟨segments, hnamed, hstart | ⟨front, _, hstart, hne, rfl⟩⟩ |
      ⟨front, hexpanded, rfl⟩)
    · exact .inr ⟨[], rfl, .inl rfl⟩
    · exact .inl ⟨segments, hnamed, hstart⟩
    · exact .inr ⟨front, rfl, .inr (.inl ⟨segments, hnamed, hstart, hne⟩)⟩
    · exact .inr ⟨front, rfl, .inr (.inr hexpanded)⟩

namespace Draft

variable {schema : Schema} {settings : BuildSettings} {draft : Draft} {query : Query}

/-- Wanting the fields of the projection adds what its entries bring. -/
theorem covers_addProjection {type : String} {tree out : SelectTree}
    (h : draft.addProjection schema type tree = .ok out) (htree : Everywhere Tidy tree)
    {path : List String} (hpath : path ≠ []) :
    out.covers path = true ↔ tree.covers path = true ∨
      (∃ entry kind, draft.HasEntry schema type entry kind ∧ Along entry path) ∨
        ∃ front, draft.Expands schema type front ∧ path = front ++ [identityField] := by
  unfold addProjection at h
  cases hname : draft.projectionName with
  | none =>
    simp only [hname, Except.ok.injEq] at h
    simp [h, HasEntry, Expands, hname]
  | some name =>
    simp only [hname] at h
    obtain ⟨projection, hprojection, h⟩ := bind_eq_ok_iff.mp h
    have hentry : ∀ entry kind, draft.HasEntry schema type entry kind ↔
        ProjectedField.HasEntry projection.fields entry kind := by
      intro entry kind
      simp [HasEntry, hname, hprojection]
    rw [Schema.covers_addProjectedAll projection.fields h htree hpath, brings_iff_along hpath]
    simp only [hentry, Expands]

/-- Wanting the fields at paths adds what lies along them. -/
theorem covers_addPaths {type : String} {paths : List String} {tree out : SelectTree}
    (h : addPaths schema type paths tree = .ok out) (htree : Everywhere Tidy tree)
    {path : List String} (hpath : path ≠ []) :
    out.covers path = true ↔ tree.covers path = true ∨ AlongSome paths path := by
  induction paths generalizing tree with
  | nil =>
    obtain rfl := pure_eq_ok_iff.mp h
    simp [AlongSome]
  | cons first paths ih =>
    rw [addPaths, List.foldlM_cons] at h
    obtain ⟨next, hnext, h⟩ := bind_eq_ok_iff.mp h
    obtain ⟨segments, hsegments, hnext⟩ := bind_eq_ok_iff.mp hnext
    have htidy := Schema.everywhere_addPath (tidy_keptByBuilding fun _ => True)
      (fun _ _ => trivial) hnext htree
    rw [ih h htidy, Schema.covers_addPath (Schema.pathSegments_ne_nil hsegments) hnext htree hpath,
      or_assoc, ← alongSome_cons hsegments]

/-- The first tree of a query reaches what comes along with what was asked for. -/
theorem covers_selectTree_iff (h : draft.build schema settings = .ok query) {path : List String}
    (hpath : path ≠ []) :
    query.selectTree.covers path = true ↔
      ComesAlong (draft.Asks schema query.entityType) (draft.Expands schema query.entityType)
        path := by
  obtain ⟨keyName, selectStart, extendStart, trace⟩ := exists_trace_of_build h
  have hkept := tidy_keptByBuilding fun _ => True
  have hroot : Everywhere Tidy (.root query.entityType keyName) := hkept.everywhere_root _ _ _
  have hstart := everywhere_addProjection hkept (fun _ _ => trivial) trace.projected hroot
  have hasks : (∃ segments, draft.Asks schema query.entityType segments ∧ Along segments path) ↔
      (∃ entry kind, draft.HasEntry schema query.entityType entry kind ∧ Along entry path) ∨
        AlongSome draft.select path := by
    constructor
    · rintro ⟨segments, hlisted | hprojected, halong⟩
      · exact .inr ⟨_, ‹_›, segments, ‹_›, halong⟩
      · exact .inl ⟨segments, _, ‹_›, halong⟩
    · rintro (⟨entry, kind, hentry, halong⟩ | ⟨text, htext, segments, hsegments, halong⟩)
      · exact ⟨entry, .projected hentry, halong⟩
      · exact ⟨segments, .listed htext hsegments, halong⟩
  rw [covers_addPaths trace.selected hstart hpath,
    covers_addProjection trace.projected hroot hpath, covers_root hpath, comesAlong_iff, hasks]
  simp only [or_comm, or_left_comm]

/-- The paths that are added where they are missing are those that a draft needs. -/
theorem alongSome_referencedPaths {path : List String} :
    AlongSome draft.referencedPaths path ↔ ∃ segments, draft.Needs segments ∧
      Along segments path := by
  constructor
  · rintro ⟨text, htext, segments, hsegments, halong⟩
    refine ⟨segments, ?_, halong⟩
    rcases List.mem_append.mp htext with hfilter | horder
    · cases hpredicate : draft.predicate with
      | none => simp [hpredicate] at hfilter
      | some predicate =>
        exact .filter hpredicate (by simpa [hpredicate] using hfilter) hsegments
    · cases hclause : draft.order with
      | none => simp [hclause] at horder
      | some clause =>
        obtain ⟨key, hkey, rfl⟩ : ∃ key ∈ clause.keys, key.path = text := by
          simpa [hclause] using horder
        exact .order hclause hkey hsegments
  · rintro ⟨segments, hneeds, halong⟩
    cases hneeds with
    | @filter predicate text _ hpredicate htext hsegments =>
      refine ⟨text, List.mem_append_left _ ?_, segments, hsegments, halong⟩
      simpa [hpredicate] using htext
    | @order clause key _ hclause hkey hsegments =>
      refine ⟨key.path, List.mem_append_right _ ?_, segments, hsegments, halong⟩
      simpa [hclause] using List.mem_map_of_mem hkey

/-- A query that makes a choice of fields reaches with what it fetches exactly what comes along
with the paths it asks for and those that its filter and its order need; with the fields it
shows, exactly what comes along with the paths it asks for. -/
theorem covers_iff_comesAlong (h : draft.build schema settings = .ok query)
    (hmode : query.selectMode ≠ .all) {path : List String} (hpath : path ≠ []) :
    (query.fetchTree.covers path = true ↔
        ComesAlong
          (fun segments => draft.Asks schema query.entityType segments ∨ draft.Needs segments)
          (draft.Expands schema query.entityType) path) ∧
      (query.selectTree.covers path = true ↔
        ComesAlong (draft.Asks schema query.entityType) (draft.Expands schema query.entityType)
          path) := by
  have hselect := covers_selectTree_iff h hpath
  refine ⟨?_, hselect⟩
  obtain ⟨keyName, selectStart, extendStart, trace⟩ := exists_trace_of_build h
  obtain ⟨_, _, _, _, hsame⟩ := options_of_build h
  have hidentityOnly : SelectTree.root query.entityType keyName = extendStart := by
    have hreached := trace.reached
    rw [reachTree, if_neg (hsame ▸ hmode)] at hreached
    exact Except.ok.inj hreached
  subst hidentityOnly
  have hroot : Everywhere Tidy (.root query.entityType keyName) :=
    (tidy_keptByBuilding fun _ => True).everywhere_root _ _ _
  rw [covers_fetchTree_iff h hpath,
    covers_addMissingPaths trace.extended (tidy_of_build h).1 hroot hpath, covers_root hpath,
    alongSome_referencedPaths, hselect, comesAlong_iff, comesAlong_iff]
  simp only [or_and_right, exists_or, or_assoc, or_comm, or_left_comm, or_self_left]

/-- The fields of an overview of employees: their name, that of their manager, and their
orders without any field. -/
def overviewFields : List ProjectedField :=
  [{ name := "name", kind := .scalar },
    { name := "manager", kind := .belongsTo, fields := [{ name := "name", kind := .scalar }] },
    { name := "orders", kind := .hasMany }]

/-- Employees with that overview as a projection, and orders. -/
def overviewSchema : Schema where
  models := [
    ("employee", {
      name := "employee",
      attributes := [⟨"name", .string, none⟩, ⟨"age", .number, none⟩],
      relationships := [
        { name := "manager", kind := .belongsTo, target := "employee" },
        { name := "orders", kind := .hasMany, target := "order" }],
      projections := [{ name := "overview", fields := overviewFields }] }),
    ("order", { name := "order", attributes := [⟨"price", .number, none⟩] })]

/-- The steps of a query for the overview and the age, filtered by the price of the orders. -/
def overviewSteps : List Step :=
  [.ofType "employee", .projection "overview", .select "age",
    .filter (.quantified "orders" .any (.simple "price" .gt (.int 5)))]

theorem covers_overview :
    ∃ query, (ofSteps overviewSteps).build overviewSchema = .ok query ∧
      query.selectMode ≠ .all ∧ query.fetchTree.covers ["orders", "price"] = true ∧
        query.selectTree.covers ["manager", "name"] = true ∧
          query.selectTree.covers ["orders", "id"] = true := by
  obtain ⟨query, hbuild⟩ : ∃ query, (ofSteps overviewSteps).build overviewSchema = .ok query :=
    exists_eq_ok_of_isOk (by decide +kernel)
  obtain ⟨htype, _, _, _, hsame⟩ := options_of_build hbuild
  have hemployee : "employee" = query.entityType := Option.some.inj htype
  have hmode : query.selectMode ≠ .all := by
    rw [hsame]
    decide +kernel
  have hentry : ∀ {path : List String} {kind : FieldKind},
      ProjectedField.HasEntry overviewFields path kind →
        (ofSteps overviewSteps).HasEntry overviewSchema query.entityType path kind := by
    intro path kind h
    exact ⟨"overview", ⟨"overview", overviewFields⟩, rfl, hemployee ▸ rfl, h⟩
  have hmanager : ProjectedField.HasEntry overviewFields ["manager", "name"] .scalar := by
    refine HasEntry.cons_iff.mpr (.inr (HasEntry.cons_iff.mpr (.inl ?_)))
    exact HasEntry.singleton_iff.mpr
      (.inr ⟨by decide, ["name"], rfl, HasEntry.singleton_iff.mpr (.inl ⟨rfl, rfl⟩)⟩)
  have horders : ProjectedField.HasEntry overviewFields ["orders"] .hasMany := by
    refine HasEntry.cons_iff.mpr (.inr (HasEntry.cons_iff.mpr (.inr ?_)))
    exact HasEntry.singleton_iff.mpr (.inl ⟨rfl, rfl⟩)
  have hprice : (ofSteps overviewSteps).Needs ["orders", "price"] := by
    have hsegments : Schema.pathSegments "orders.price" = .ok ["orders", "price"] := by
      decide +kernel
    exact .filter rfl (by decide +kernel) hsegments
  refine ⟨query, hbuild, hmode, ?_, ?_, ?_⟩
  · exact (covers_iff_comesAlong hbuild hmode (by decide)).1.mpr
      (.inl ⟨_, .inr hprice, List.prefix_rfl⟩)
  · exact (covers_iff_comesAlong hbuild hmode (by decide)).2.mpr
      (.inl ⟨_, .projected (hentry hmanager), List.prefix_rfl⟩)
  · exact (covers_iff_comesAlong hbuild hmode (by decide)).2.mpr
      (.inr ⟨["orders"], rfl, .inr (.inr ⟨_, hentry horders, by decide⟩)⟩)

end Draft

end EntityQuery
