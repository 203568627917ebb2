import EntityQuery.Proofs.Schema.Listing
import Mathlib.Data.List.Perm.Subperm
import Mathlib.Logic.Relation

/-!
# Types that only add fields

A model with a base that declares no key and no field under a name that the base has only adds
fields. If no type is a base of itself, its lineage is that of the base with one model in front. So
whatever is looked up for the base is found for the type as well, and is the same, but for the
entity that an identity is said to belong to.
-/

namespace EntityQuery

namespace Schema

variable {schema : Schema} {type base : String} {model : Model}

/-- A type has another one as its base. -/
def HasBase (schema : Schema) (type base : String) : Prop :=
  ∃ model, schema.models.get? type = some model ∧ model.parent = some base

/-- No type is a base of itself, at whatever distance. -/
def Acyclic (schema : Schema) : Prop := ∀ type, ¬Relation.TransGen schema.HasBase type type

/-- A schema is acyclic if the types have ranks and every base has a smaller one. -/
theorem acyclic_of_rank (rank : String → Nat)
    (h : ∀ type base, schema.HasBase type base → rank base < rank type) : schema.Acyclic := by
  have hsmaller : ∀ {type base}, Relation.TransGen schema.HasBase type base →
      rank base < rank type := by
    intro type base hway
    induction hway with
    | single hbase => exact h _ _ hbase
    | tail _ hbase ih => exact (h _ _ hbase).trans ih
  exact fun type hcycle => Nat.lt_irrefl _ (hsmaller hcycle)

/-- Different types with a base are at most as many as the models. -/
theorem length_le_of_hasBase {visited : List String} (hnodup : visited.Nodup)
    (h : ∀ name ∈ visited, ∃ base, schema.HasBase name base) :
    visited.length ≤ schema.models.length := by
  have hnames : visited ⊆ schema.models.map Prod.fst := by
    intro name hname
    obtain ⟨_, model, hmodel, _⟩ := h name hname
    exact List.mem_map_of_mem (Entries.mem_of_get? hmodel)
  simpa using (hnodup.subperm hnames).length_le

/-- Without cycles, a climb that could go on for all models that were not yet visited is not cut
off: one step more changes nothing. -/
theorem Acyclic.climb_succ (h : schema.Acyclic) {visited : List String} {steps : Nat}
    (hnodup : visited.Nodup)
    (hvisited : ∀ name ∈ visited, Relation.TransGen schema.HasBase name type)
    (hsteps : schema.models.length < visited.length + steps) :
    schema.climb (steps + 1) type = schema.climb steps type := by
  induction steps generalizing type visited with
  | zero =>
    have hfew := length_le_of_hasBase hnodup fun name hname =>
      (Relation.TransGen.head'_iff.mp (hvisited name hname)).imp fun _ hfirst => hfirst.1
    omega
  | succ steps ih =>
    rw [climb, climb]
    cases hmodel : schema.models.get? type with
    | none => rfl
    | some model =>
      cases hparent : model.parent with
      | none => simp only [hparent]
      | some parent =>
        have hbase : schema.HasBase type parent := ⟨model, hmodel, hparent⟩
        have hnotYetVisited : type ∉ visited := fun hmem => h type (hvisited type hmem)
        have hrest : ∀ name ∈ type :: visited, Relation.TransGen schema.HasBase name parent := by
          intro name hname
          rcases List.mem_cons.mp hname with rfl | hold
          · exact .single hbase
          · exact (hvisited name hold).tail hbase
        have hsame := ih (List.nodup_cons.mpr ⟨hnotYetVisited, hnodup⟩) hrest
          (by rw [List.length_cons]; omega)
        simp only [hparent, hsame]

/-- Without cycles, the lineage of a type is its model before the lineage of its base. -/
theorem Acyclic.lineage_of_parent (h : schema.Acyclic)
    (hmodel : schema.models.get? type = some model) (hparent : model.parent = some base) :
    schema.lineage type =
      ⟨model :: (schema.lineage base).models, (schema.lineage base).missing⟩ := by
  have hbase : schema.HasBase type base := ⟨model, hmodel, hparent⟩
  have hsame : schema.climb (schema.models.length + 1) base =
      schema.climb schema.models.length base := by
    refine h.climb_succ (List.nodup_singleton type) ?_ (by simp)
    intro name hname
    obtain rfl := List.mem_singleton.mp hname
    exact .single hbase
  rw [lineage, lineage, hsame, climb]
  simp only [hmodel, hparent]

/-- A type adds fields to those of its base: it declares neither the name nor the type of the key,
and no field under a name that the base has. -/
structure OnlyAdds (schema : Schema) (type base : String) (model : Model) : Prop where
  /-- The model of the type. -/
  model_eq : schema.models.get? type = some model
  /-- Its base. -/
  parent_eq : model.parent = some base
  /-- No name of the key is declared. -/
  keyName_eq : model.keyName = none
  /-- No type of the key is declared. -/
  keyType_eq : model.keyType = none
  /-- The base has no field under a declared name. -/
  isNew : ∀ name ∈ model.declaredNames, ∀ field, schema.resolve base name ≠ .ok field

end Schema

/-- Two fields are the same, but that as identities they may belong to different entities. -/
inductive Field.Alike : Field → Field → Prop where
  /-- The same field. -/
  | refl (field : Field) : Alike field field
  /-- Identities with one remote name and one type. -/
  | keys (first second remoteName : String) (type : KeyType) :
    Alike (.key first remoteName type) (.key second remoteName type)

namespace Field.Alike

variable {first second : Field}

/-- What is no scalar is the same field. -/
theorem eq_of_kind (h : Alike first second) (hkind : first.kind ≠ .scalar) : first = second := by
  cases h with
  | refl => rfl
  | keys => exact absurd rfl hkind

/-- Both have one kind. -/
theorem kind_eq (h : Alike first second) : first.kind = second.kind := by
  cases h <;> rfl

end Field.Alike

namespace Schema

variable {schema : Schema} {type base : String} {model : Model}

/-- Lists whose items are related have related last items. -/
theorem rel_getLast? {α β : Type} {R : α → β → Prop} {as : List α} {bs : List β}
    (h : List.Forall₂ R as bs) : Option.Rel R as.getLast? bs.getLast? := by
  induction h with
  | nil => exact .none
  | cons hhead htail ih =>
    cases htail with
    | nil => exact .some hhead
    | cons => simpa [List.getLast?_cons] using ih

/-- The key of the base is the key of the type. -/
theorem OnlyAdds.key (h : schema.OnlyAdds type base model) (hacyclic : schema.Acyclic) :
    Carries Field.Alike (schema.key base) (schema.key type) := by
  have hlineage := hacyclic.lineage_of_parent h.model_eq h.parent_eq
  rw [Schema.key, Schema.key, hlineage]
  simp only [List.findSome?_cons, h.keyName_eq, h.keyType_eq, Lineage.conclude]
  generalize schema.lineage base = lineage
  cases lineage.models.findSome? Model.keyName with
  | none =>
    cases lineage.missing with
    | none => exact .results (.keys _ _ _ _)
    | some name => exact .fault
  | some keyName =>
    cases lineage.models.findSome? Model.keyType with
    | none =>
      cases lineage.missing with
      | none => exact .results (.keys _ _ _ _)
      | some name => exact .fault
    | some keyType => exact .results (.keys _ _ _ _)

/-- A field of the base is a field of the type. -/
theorem OnlyAdds.resolve (h : schema.OnlyAdds type base model) (hacyclic : schema.Acyclic)
    (name : String) :
    Carries Field.Alike (schema.resolve base name) (schema.resolve type name) := by
  by_cases hname : name = identityField
  · rw [Schema.resolve, Schema.resolve, if_pos hname, if_pos hname]
    exact h.key hacyclic
  · intro field hfield
    refine ⟨field, ?_, .refl field⟩
    have hundeclared : model.declared? name = none := by
      by_contra hdeclared
      obtain ⟨other, hother⟩ := Option.ne_none_iff_exists'.mp hdeclared
      exact h.isNew name (Model.exists_declared?_iff.mp ⟨other, hother⟩) field hfield
    rw [resolve_eq_ok_iff hname, nearest?] at hfield ⊢
    rw [hacyclic.lineage_of_parent h.model_eq h.parent_eq, List.findSome?_cons, hundeclared]
    exact hfield

/-- What is found along a path from the base is found from the type. Behind the first field nothing
depends on the type. -/
theorem OnlyAdds.walk (h : schema.OnlyAdds type base model) (hacyclic : schema.Acyclic)
    (segments : List String) :
    Carries (List.Forall₂ Field.Alike) (schema.walk base segments) (schema.walk type segments) := by
  match segments with
  | [] => exact .results .nil
  | [last] =>
    rw [Schema.walk, Schema.walk]
    refine (h.resolve hacyclic last).bind fun first second halike => ?_
    exact .results (.cons halike .nil)
  | segment :: next :: rest =>
    intro chain hchain
    obtain ⟨field, others, hfield, hkind, hothers, rfl⟩ := walk_cons_eq_ok hchain
    obtain ⟨second, hsecond, halike⟩ := h.resolve hacyclic segment field hfield
    obtain rfl := halike.eq_of_kind (by rw [hkind]; decide)
    refine ⟨field :: others, ?_, List.forall₂_same.mpr fun other _ => .refl other⟩
    rw [Schema.walk, hsecond, ok_bind, if_neg (by simpa using hkind), hothers]
    · rfl
    · exact List.cons_ne_nil next rest

/-- A type finds what another one finds along a path, up to the entity of an identity. -/
def InheritsPaths (schema : Schema) (type base : String) : Prop :=
  ∀ path, Carries (List.Forall₂ Field.Alike) (schema.resolvePath base path)
    (schema.resolvePath type path)

/-- A type that only adds fields to those of its base finds what the base finds. -/
theorem OnlyAdds.inheritsPaths (h : schema.OnlyAdds type base model)
    (hacyclic : schema.Acyclic) : schema.InheritsPaths type base := by
  intro path
  refine (Carries.refl (pathSegments path)).bind ?_
  rintro segments _ rfl
  exact h.walk hacyclic segments

namespace InheritsPaths

variable (h : schema.InheritsPaths type base)

include h

/-- The fields at the end of a path are alike too. -/
theorem resolveEnd (path : String) :
    Carries (fun first second => List.Forall₂ Field.Alike first.1 second.1 ∧
        first.2.Alike second.2)
      (schema.resolveEnd base path) (schema.resolveEnd type path) := by
  refine (h path).bind fun first second halike => ?_
  have hlast := rel_getLast? halike
  cases hfirst : first.getLast? with
  | none => exact .fault
  | some last =>
    rw [hfirst] at hlast
    cases hsecond : second.getLast? with
    | none =>
      rw [hsecond] at hlast
      cases hlast
    | some other =>
      rw [hsecond] at hlast
      cases hlast with
      | some hends => exact .results ⟨halike, hends⟩

/-- The collection at the end of a path is the same. -/
theorem resolveCollection (path : String) :
    Carries Eq (schema.resolveCollection base path) (schema.resolveCollection type path) := by
  refine (h.resolveEnd path).bind ?_
  rintro ⟨_, first⟩ ⟨_, second⟩ ⟨_, halike⟩
  by_cases hkind : first.kind = .hasMany
  · obtain rfl := halike.eq_of_kind (by rw [hkind]; decide)
    exact .refl _
  · simp only [hkind, ne_eq, not_false_eq_true, if_true]
    exact .fault

end InheritsPaths

end Schema

end EntityQuery
