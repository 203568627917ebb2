import EntityQuery.Proofs.Schema.Fields

/-!
# Closed schemas

A schema that has the base of each of its models and the target of each of its relationships
never ends a search at a type it does not have. So every type of it has a key, and so has the
record that a relationship leads to.
-/

namespace EntityQuery

namespace Schema

variable {schema : Schema} {type : String}

/-- The base of every model is a model. -/
def HasParents (schema : Schema) : Prop :=
  ∀ entry ∈ schema.models, ∀ parent, entry.2.parent = some parent →
    (schema.models.get? parent).isSome = true

/-- A schema has all the types that it speaks of: the bases of its models and the targets of
their relationships. -/
structure Closed (schema : Schema) : Prop where
  /-- The base of a model is a model. -/
  parents : ∀ entry ∈ schema.models, ∀ parent, entry.2.parent = some parent →
    (schema.models.get? parent).isSome = true
  /-- The target of a relationship is a model. -/
  targets : ∀ entry ∈ schema.models, ∀ relationship ∈ entry.2.relationships,
    (schema.models.get? relationship.target).isSome = true

/-- Where every base is a model, no lineage breaks off. -/
theorem HasParents.missing_climb (h : schema.HasParents) (steps : Nat)
    (htype : (schema.models.get? type).isSome = true) :
    (schema.climb steps type).missing = none := by
  induction steps generalizing type with
  | zero => rfl
  | succ steps ih =>
    obtain ⟨model, hmodel⟩ := Option.isSome_iff_exists.mp htype
    rw [climb, hmodel]
    cases hparent : model.parent with
    | none => simp [hparent]
    | some parent =>
      simp only [hparent]
      exact ih (h _ (Entries.mem_of_get? hmodel) parent hparent)

/-- A type whose lineage does not break off has a key. -/
theorem exists_key_of_missing (hmissing : (schema.lineage type).missing = none) :
    ∃ key, schema.key type = .ok key := by
  simp only [key, Lineage.conclude, hmissing]
  split
  · exact ⟨_, rfl⟩
  · contradiction
  · exact ⟨_, rfl⟩

/-- Where every base is a model, every type has a key. -/
theorem HasParents.exists_key (h : schema.HasParents)
    (htype : (schema.models.get? type).isSome = true) : ∃ key, schema.key type = .ok key :=
  exists_key_of_missing (h.missing_climb _ htype)

/-- In a closed schema the record that a field leads to has a key. -/
theorem Closed.exists_key_target (h : schema.Closed) {owner name : String} {field : Field}
    (hfield : schema.resolve owner name = .ok field) (hkind : field.kind = .belongsTo) :
    ∃ key, schema.key field.target = .ok key := by
  rcases resolve_eq_ok hfield with hkey | ⟨entry, hentry, ⟨declaration, _, rfl⟩ |
    ⟨relationship, hrelationship, rfl⟩⟩
  · obtain ⟨remoteName, keyType, rfl⟩ := key_eq_ok hkey
    cases hkind
  · cases hkind
  · exact HasParents.exists_key h.parents (h.targets entry hentry relationship hrelationship)

end Schema

end EntityQuery
