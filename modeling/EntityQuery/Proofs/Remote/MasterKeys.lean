import EntityQuery.Proofs.Remote.Acceptance
import EntityQuery.Proofs.Remote.Containment
import EntityQuery.Proofs.Rows.Shaping
import EntityQuery.Proofs.Rows.Stages

/-!
# Masters and their keys

A relationship to one record that is compared with a value stands for the key of that record. In
requests it is written with the name of the key behind it, and when a record is tested, what is
read is the identity of the nested record. The path of the key itself, which is that of the
relationship with the identity below it, says the same.
-/

namespace EntityQuery

/-- The path of the identity of the record that a path leads to. -/
def identityPath (path : String) : String := path ++ "." ++ identityField

namespace Schema

variable {schema : Schema} {type path : String} {segments : List String} {chain : List Field}
  {field key : Field}

/-- The path of an identity has the segments of the path to the record, and one more. -/
theorem pathSegments_identityPath (h : pathSegments path = .ok segments) :
    pathSegments (identityPath path) = .ok (segments ++ [identityField]) :=
  pathSegments_dotted h Rows.pathSegments_identityField

/-- The field at the end of a path is the last one on a walk along its segments. -/
theorem resolveEnd_eq_ok_iff : schema.resolveEnd type path = .ok (chain, field) ↔
    ∃ segments, pathSegments path = .ok segments ∧ schema.walk type segments = .ok chain ∧
      chain.getLast? = some field := by
  constructor
  · intro h
    obtain ⟨found, hfound, h⟩ := bind_eq_ok_iff.mp h
    obtain ⟨segments, hsegments, hwalk⟩ := bind_eq_ok_iff.mp hfound
    cases hlast : found.getLast? with
    | none => simp [hlast] at h
    | some last =>
      simp only [hlast, pure_eq_ok_iff, Prod.mk.injEq] at h
      obtain ⟨rfl, rfl⟩ := h
      exact ⟨segments, hsegments, hwalk, hlast⟩
  · rintro ⟨segments, hsegments, hwalk, hlast⟩
    simp only [resolveEnd, resolvePath, hsegments, ok_bind, hwalk, hlast]
    rfl

/-- A walk goes on from a relationship to one record. -/
theorem walk_cons_of_belongsTo {segment : String} {rest : List String}
    (hfield : schema.resolve type segment = .ok field) (hkind : field.kind = .belongsTo)
    (hrest : rest ≠ []) :
    schema.walk type (segment :: rest) = (schema.walk field.target rest).map (field :: ·) := by
  rw [walk, hfield, ok_bind, if_neg (by simpa using hkind)]
  · rfl
  · exact hrest

/-- A walk that ends at a relationship to one record goes on to the key of that record. -/
theorem walk_append_identityField (hwalk : schema.walk type segments = .ok chain)
    (hlast : chain.getLast? = some field) (hkind : field.kind = .belongsTo)
    (hkey : schema.key field.target = .ok key) :
    schema.walk type (segments ++ [identityField]) = .ok (chain ++ [key]) := by
  induction segments generalizing type chain with
  | nil =>
    obtain rfl := Except.ok.inj hwalk
    cases hlast
  | cons segment rest ih =>
    cases rest with
    | nil =>
      obtain ⟨found, hfound, h⟩ := bind_eq_ok_iff.mp hwalk
      obtain rfl := pure_eq_ok_iff.mp h
      obtain rfl : found = field := Option.some.inj hlast
      have hidentity : schema.walk found.target [identityField] = .ok [key] := by
        rw [walk, resolve, if_pos rfl, hkey]
        rfl
      rw [List.singleton_append, walk_cons_of_belongsTo hfound hkind (List.cons_ne_nil _ _),
        hidentity]
      rfl
    | cons next rest =>
      obtain ⟨found, others, hfound, hgoes, hothers, rfl⟩ := walk_cons_eq_ok hwalk
      have hne : others ≠ [] := by
        rw [← List.length_pos_iff, length_walk hothers]
        simp
      rw [List.getLast?_cons_of_ne_nil hne] at hlast
      rw [List.cons_append, walk_cons_of_belongsTo hfound hgoes (by simp), ih hothers hlast]
      rfl

/-- Below a path that ends at a relationship to one record is the key of that record. -/
theorem resolveEnd_identityPath (h : schema.resolveEnd type path = .ok (chain, field))
    (hkind : field.kind = .belongsTo) (hkey : schema.key field.target = .ok key) :
    schema.resolveEnd type (identityPath path) = .ok (chain ++ [key], key) := by
  obtain ⟨segments, hsegments, hwalk, hlast⟩ := resolveEnd_eq_ok_iff.mp h
  exact resolveEnd_eq_ok_iff.mpr ⟨segments ++ [identityField],
    pathSegments_identityPath hsegments, walk_append_identityField hwalk hlast hkind hkey,
    List.getLast?_concat⟩

end Schema

namespace Remote.Context

variable {context : Context} {scope : Scope} {path : String} {chain : List Field}
  {field key : Field} {value : Value}

/-- Against a value, the relationship and the key below it have the same reference, and the key
decides how the value is written. -/
theorem resolveOperand_identityPath
    (h : context.schema.resolveEnd scope.entityType path = .ok (chain, field))
    (hkind : field.kind = .belongsTo) (hkey : context.schema.key field.target = .ok key)
    (hvalue : value.isNull = false) :
    context.resolveOperand scope (.literal value) (.field (identityPath path)) =
      context.resolveOperand scope (.literal value) (.field path) := by
  have hsolid : isSolidLiteral (.literal value) = true := by
    rw [isSolidLiteral, hvalue]
    rfl
  obtain ⟨remoteName, keyType, rfl⟩ := Schema.key_eq_ok hkey
  have hbelow := Schema.resolveEnd_identityPath h hkind hkey
  have hscalar : ¬ ((Field.key field.target remoteName keyType).kind = .belongsTo ∧
      isSolidLiteral (.literal value) = true) := fun hboth => by cases hboth.1
  simp only [resolveOperand, reference, h, hbelow, ok_bind, pure_bind, if_neg hscalar,
    if_pos (And.intro hkind hsolid), hkey, List.map_append, List.map_singleton]

/-- The relationship and the key below it are put into the same words. -/
theorem filterText_identityPath {type : String}
    (h : context.schema.resolveEnd type path = .ok (chain, field))
    (hkind : field.kind = .belongsTo) (hkey : context.schema.key field.target = .ok key)
    (op : Comparison) (hvalue : value.isNull = false) :
    context.filterText type (.simple (identityPath path) op value) =
      context.filterText type (.simple path op value) := by
  have hsame : context.resolveOperand (.root type) (.literal value) (.field (identityPath path)) =
      context.resolveOperand (.root type) (.literal value) (.field path) :=
    resolveOperand_identityPath h hkind hkey hvalue
  have hfixed : ∀ other, context.resolveOperand (.root type) other (.literal value) =
      .ok (.literal value) := fun _ => rfl
  simp only [filterText, expression, Predicate.simple, expressionWithin, comparison, hsame, hfixed]

end Remote.Context

/-- What does not go on reading below a nested record is read as it is. -/
theorem Value.endpoint_of_isCompound {value : Value} (h : value.isCompound = false) :
    value.endpoint = value := by
  cases value with
  | record fields => cases h
  | _ => rfl

/-- Along a path, every relationship is missing, null, or a record whose identity is missing or
a scalar. -/
def Record.HasLinks (record : Record) : List String → Prop
  | [] => True
  | name :: rest =>
    match record.get? name with
    | none | some .null => True
    | some (.record nested) =>
      (Value.record nested).endpoint.isCompound = false ∧ Record.HasLinks nested rest
    | _ => False

namespace Rows

variable {schema : Schema} {type path : String} {segments : List String} {chain : List Field}
  {field key : Field} {op : Comparison} {value : Value} {record : Record}

/-- A record is read by its identity, unless that is a list or a record in turn. -/
theorem read_identityField {nested : Record}
    (h : (Value.record nested).endpoint.isCompound = false) :
    nested.read [identityField] = (Value.record nested).endpoint := by
  have hend : (Value.record nested).endpoint =
      (Entries.get? nested identityField).getD .null := rfl
  rw [hend] at h ⊢
  rw [Record.read]
  cases hidentity : Entries.get? nested identityField with
  | none => rfl
  | some identity =>
    rw [hidentity] at h
    exact Value.endpoint_of_isCompound h

/-- Where a relationship leads to a record, reading on to its identity changes nothing, and what
is read is a scalar. -/
theorem read_append_identityField (hne : segments ≠ []) (h : record.HasLinks segments) :
    record.read (segments ++ [identityField]) = record.read segments ∧
      (record.read segments).isCompound = false := by
  induction segments generalizing record with
  | nil => exact absurd rfl hne
  | cons name rest ih =>
    rw [Record.HasLinks] at h
    by_cases hrest : rest = []
    · subst hrest
      rw [List.singleton_append, read_cons (List.cons_ne_nil _ _), Record.read]
      cases hget : record.get? name with
      | none => exact ⟨rfl, rfl⟩
      | some found =>
        rw [hget] at h
        cases found with
        | null => exact ⟨rfl, rfl⟩
        | record nested =>
          exact ⟨read_identityField h.1, h.1⟩
        | _ => cases h
    · rw [List.cons_append, read_cons (by simp), read_cons hrest]
      cases hget : record.get? name with
      | none => exact ⟨rfl, rfl⟩
      | some found =>
        rw [hget] at h
        cases found with
        | null => exact ⟨rfl, rfl⟩
        | record nested => exact ih hrest h.2
        | _ => cases h

/-- A field that is found at the end of a path can be read along it. -/
theorem checkedPath_of_resolveEnd (h : schema.resolveEnd type path = .ok (chain, field))
    (hsegments : Schema.pathSegments path = .ok segments) :
    checkedPath schema type path = .ok segments := by
  obtain ⟨found, hfound, hwalk, _⟩ := Schema.resolveEnd_eq_ok_iff.mp h
  obtain rfl := Except.ok.inj (hsegments.symm.trans hfound)
  rw [checkedPath, Schema.resolvePath, hsegments, ok_bind, hwalk, ok_bind]

/-- A comparison of the field at the end of a path with a value can be tested. -/
theorem ofPredicate_simple_of_resolveEnd (h : schema.resolveEnd type path = .ok (chain, field))
    (hsegments : Schema.pathSegments path = .ok segments) :
    Test.ofPredicate schema (.simple path op value) type =
      .ok (.compare (.path segments) op (.fixed value) .values) := by
  rw [Predicate.simple, Test.ofPredicate, Test.ofComparison, Source.ofOperand,
    checkedPath_of_resolveEnd h hsegments]
  rfl

/-- The test of a relationship and that of the key below it have the same verdict. -/
theorem passes_identityPath (hne : segments ≠ []) (h : record.HasLinks segments)
    (dates : DateStyle) :
    (Test.compare (.path (segments ++ [identityField])) op (.fixed value) .values).passes dates
        record =
      (Test.compare (.path segments) op (.fixed value) .values).passes dates record := by
  simp only [Test.passes, Source.read, (read_append_identityField hne h).1]

end Rows

end EntityQuery
