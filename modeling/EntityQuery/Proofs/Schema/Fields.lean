import EntityQuery.Proofs.Entries
import EntityQuery.Proofs.Outcome
import EntityQuery.Schema.Lookup

/-!
# Where fields come from

Every model of a lineage is a model of the schema, so what holds of all declarations of a
schema holds of all fields of a type. The name of the identity always resolves to the key,
which is no relationship.
-/

namespace EntityQuery.Schema

/-- Climbing to the bases never leaves the schema. -/
theorem mem_climb {schema : Schema} {steps : Nat} {type : String} {model : Model}
    (h : model ∈ (schema.climb steps type).models) : ∃ name, (name, model) ∈ schema.models := by
  induction steps generalizing type with
  | zero => simp [climb] at h
  | succ steps ih =>
    rw [climb] at h
    cases hmodel : schema.models.get? type with
    | none => simp [hmodel] at h
    | some found =>
      have hfound := Entries.mem_of_get? hmodel
      cases hparent : found.parent with
      | none =>
        simp only [hmodel, hparent, List.mem_singleton] at h
        exact ⟨type, h ▸ hfound⟩
      | some parent =>
        simp only [hmodel, hparent, List.mem_cons] at h
        rcases h with rfl | hbase
        · exact ⟨type, hfound⟩
        · exact ih hbase

/-- A search has a result only from what it found or from its exhausted case. -/
theorem conclude_eq_ok {α : Type} {lineage : Lineage} {found : Option α}
    {exhausted : Except Fault α} {result : α}
    (h : lineage.conclude found exhausted = .ok result) :
    found = some result ∨ exhausted = .ok result := by
  unfold Lineage.conclude at h
  cases found with
  | some a => exact .inl (congrArg some (Except.ok.inj h))
  | none =>
    cases hmissing : lineage.missing with
    | some name => simp [hmissing] at h
    | none => exact .inr (by simpa [hmissing] using h)

/-- The key of a type is an identity field. -/
theorem key_eq_ok {schema : Schema} {type : String} {field : Field}
    (h : schema.key type = .ok field) :
    ∃ remoteName keyType, field = .key type remoteName keyType := by
  rcases conclude_eq_ok h with hfound | hexhausted
  · obtain ⟨keyName, _, hrest⟩ := Option.bind_eq_some_iff.mp hfound
    obtain ⟨keyType, _, hfield⟩ := Option.bind_eq_some_iff.mp hrest
    exact ⟨keyName, keyType, (Option.some.inj hfield).symm⟩
  · exact ⟨_, _, (Except.ok.inj hexhausted).symm⟩

/-- The name of a key was declared by a model of the schema unless it is that of the
identity field. -/
theorem remoteName_of_key {schema : Schema} {type : String} {field : Field}
    (h : schema.key type = .ok field) {remoteName : String}
    (hname : field.remoteName? = some remoteName) :
    remoteName = identityField ∨ ∃ entry ∈ schema.models, entry.2.keyName = some remoteName := by
  have hdeclared : ∀ {keyName : String},
      (schema.lineage type).models.findSome? Model.keyName = some keyName →
        ∃ entry ∈ schema.models, entry.2.keyName = some keyName := by
    intro keyName hkey
    obtain ⟨model, hmodel, hkeyName⟩ := List.exists_of_findSome?_eq_some hkey
    obtain ⟨name, hentry⟩ := mem_climb hmodel
    exact ⟨(name, model), hentry, hkeyName⟩
  rcases conclude_eq_ok h with hfound | hexhausted
  · obtain ⟨keyName, hkey, hrest⟩ := Option.bind_eq_some_iff.mp hfound
    obtain ⟨keyType, _, hfield⟩ := Option.bind_eq_some_iff.mp hrest
    obtain rfl := Option.some.inj hfield
    obtain rfl := Option.some.inj hname
    exact .inr (hdeclared hkey)
  · obtain rfl := Except.ok.inj hexhausted
    obtain rfl := Option.some.inj hname
    cases hkey : (schema.lineage type).models.findSome? Model.keyName with
    | none => exact .inl rfl
    | some keyName => exact .inr (hdeclared hkey)

/-- What a model declares under a name is one of its attributes or relationships. -/
theorem mem_of_declared? {model : Model} {name : String} {field : Field}
    (h : model.declared? name = some field) :
    (∃ declaration ∈ model.attributes, field = .scalar model.name declaration) ∨
      ∃ relationship ∈ model.relationships, field = .related model.name relationship := by
  unfold Model.declared? at h
  split at h
  case h_1 declaration hattribute =>
    exact .inl ⟨declaration, List.mem_of_find?_eq_some hattribute, (Option.some.inj h).symm⟩
  case h_2 =>
    obtain ⟨relationship, hfound, rfl⟩ := Option.map_eq_some_iff.mp h
    exact .inr ⟨relationship, List.mem_of_find?_eq_some hfound, rfl⟩

/-- A field that is found is a key, or it was declared by a model of the schema. -/
theorem resolve_eq_ok {schema : Schema} {type name : String} {field : Field}
    (h : schema.resolve type name = .ok field) :
    schema.key type = .ok field ∨ ∃ entry ∈ schema.models,
      (∃ declaration ∈ entry.2.attributes, field = .scalar entry.2.name declaration) ∨
        ∃ relationship ∈ entry.2.relationships, field = .related entry.2.name relationship := by
  rw [resolve] at h
  by_cases hname : name = identityField
  · rw [if_pos hname] at h
    exact .inl h
  · rw [if_neg hname] at h
    rcases conclude_eq_ok h with hfound | hexhausted
    · obtain ⟨model, hmodel, hdeclared⟩ := List.exists_of_findSome?_eq_some hfound
      obtain ⟨typeName, hentry⟩ := mem_climb hmodel
      exact .inr ⟨(typeName, model), hentry, mem_of_declared? hdeclared⟩
    · cases hexhausted

/-- A walk along more than one segment goes on from a relationship to one record. -/
theorem walk_cons_eq_ok {schema : Schema} {type segment next : String} {rest : List String}
    {chain : List Field} (h : schema.walk type (segment :: next :: rest) = .ok chain) :
    ∃ field others, schema.resolve type segment = .ok field ∧ field.kind = .belongsTo ∧
      schema.walk field.target (next :: rest) = .ok others ∧ chain = field :: others := by
  rw [walk] at h
  · obtain ⟨field, hfield, h⟩ := bind_eq_ok_iff.mp h
    by_cases hkind : field.kind = .belongsTo
    · simp only [hkind, ne_eq, not_true_eq_false, if_false] at h
      obtain ⟨others, hothers, h⟩ := bind_eq_ok_iff.mp h
      exact ⟨field, others, hfield, hkind, hothers, (pure_eq_ok_iff.mp h).symm⟩
    · simp [hkind] at h
  · simp

/-- A walk along segments finds a field for each. -/
theorem length_walk {schema : Schema} {type : String} {segments : List String}
    {chain : List Field} (h : schema.walk type segments = .ok chain) :
    chain.length = segments.length := by
  induction segments generalizing type chain with
  | nil =>
    obtain rfl := Except.ok.inj h
    rfl
  | cons segment rest ih =>
    cases rest with
    | nil =>
      obtain ⟨_, _, h⟩ := bind_eq_ok_iff.mp h
      obtain rfl := pure_eq_ok_iff.mp h
      rfl
    | cons next rest =>
      obtain ⟨field, others, _, _, hothers, rfl⟩ := walk_cons_eq_ok h
      simp only [List.length_cons, ih hothers]

/-- A relationship is not found under the name of the identity. -/
theorem ne_identityField_of_resolve {schema : Schema} {type name : String} {field : Field}
    (h : schema.resolve type name = .ok field) (hrelationship : field.isRelationship = true) :
    name ≠ identityField := by
  rintro rfl
  rw [resolve, if_pos rfl] at h
  obtain ⟨remoteName, keyType, rfl⟩ := key_eq_ok h
  cases hrelationship

/-- No relationship has this name. -/
def NoRelationshipNamed (schema : Schema) (name : String) : Prop :=
  ∀ entry ∈ schema.models, ∀ relationship ∈ entry.2.relationships, relationship.name ≠ name

/-- The relationships among the fields of a type are declared by models of the schema. -/
theorem exists_relationship_of_mem_fields {schema : Schema} {type : String}
    {listed : List Field} {field : Field} (h : schema.fields type = .ok listed)
    (hfield : field ∈ listed) (hrelationship : field.isRelationship = true) :
    ∃ entry ∈ schema.models, ∃ relationship ∈ entry.2.relationships,
      field = .related entry.2.name relationship := by
  rw [fields] at h
  cases hmissing : (schema.lineage type).missing with
  | some name => simp [hmissing] at h
  | none =>
    simp only [hmissing, Except.ok.injEq] at h
    subst h
    obtain ⟨model, hmodel, hdeclared⟩ := List.mem_flatMap.mp hfield
    obtain ⟨typeName, hentry⟩ := mem_climb (List.mem_reverse.mp hmodel)
    obtain ⟨name, _, hname⟩ := List.mem_filterMap.mp hdeclared
    refine ⟨(typeName, model), hentry, ?_⟩
    rcases mem_of_declared? hname with ⟨declaration, _, rfl⟩ | ⟨relationship, hmem, rfl⟩
    · cases hrelationship
    · exact ⟨relationship, hmem, rfl⟩

/-- Without a relationship of that name, no relationship among the fields has it. -/
theorem name_ne_of_mem_fields {schema : Schema} {type name : String} {listed : List Field}
    {field : Field} (hschema : schema.NoRelationshipNamed name)
    (h : schema.fields type = .ok listed) (hfield : field ∈ listed)
    (hrelationship : field.isRelationship = true) : field.name ≠ name := by
  obtain ⟨entry, hentry, relationship, hmem, rfl⟩ :=
    exists_relationship_of_mem_fields h hfield hrelationship
  exact hschema entry hentry relationship hmem

end EntityQuery.Schema
