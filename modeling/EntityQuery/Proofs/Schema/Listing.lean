import EntityQuery.Proofs.Schema.Closed
import Mathlib.Data.List.Nodup
import Mathlib.Data.List.Count

/-!
# Listed fields and looked-up fields

The fields of a type are listed from the base model to the type itself, and under a name the
type has what the nearest model declares. So a name is listed as often as the lineage declares
it, and what is found under it is what is listed last. A name that is declared once is listed
once, as the field that it leads to.
-/

namespace EntityQuery

namespace Model

variable {model : Model} {name : String} {field : Field}

/-- The names that a model declares, those of attributes first. -/
def declaredNames (model : Model) : List String :=
  model.attributes.map Attribute.name ++ model.relationships.map Relationship.name

/-- What a model declares under a name has this name. -/
theorem name_of_declared? (h : model.declared? name = some field) : field.name = name := by
  unfold declared? at h
  split at h
  case h_1 declaration hattribute =>
    obtain rfl := Option.some.inj h
    have hname := List.find?_some hattribute
    exact beq_iff_eq.mp hname
  case h_2 =>
    obtain ⟨relationship, hfound, rfl⟩ := Option.map_eq_some_iff.mp h
    have hname := List.find?_some hfound
    exact beq_iff_eq.mp hname

/-- A model declares a field under every name that it declares. -/
theorem exists_declared?_iff : (∃ field, model.declared? name = some field) ↔
    name ∈ model.declaredNames := by
  constructor
  · rintro ⟨field, h⟩
    obtain rfl := name_of_declared? h
    rcases Schema.mem_of_declared? h with ⟨declaration, hmem, rfl⟩ | ⟨relationship, hmem, rfl⟩
    · exact List.mem_append_left _ (List.mem_map_of_mem hmem)
    · exact List.mem_append_right _ (List.mem_map_of_mem hmem)
  · intro h
    unfold declared?
    cases hattribute : model.attributes.find? fun declaration => declaration.name == name with
    | some declaration => exact ⟨_, rfl⟩
    | none =>
      rcases List.mem_append.mp h with hmem | hmem
      · obtain ⟨declaration, hdeclaration, rfl⟩ := List.mem_map.mp hmem
        have hother := List.find?_eq_none.mp hattribute declaration hdeclaration
        exact absurd (beq_self_eq_true _) hother
      · obtain ⟨relationship, hrelationship, rfl⟩ := List.mem_map.mp hmem
        have hsome : (model.relationships.find? fun declaration =>
            declaration.name == relationship.name).isSome = true :=
          List.find?_isSome.mpr ⟨relationship, hrelationship, beq_self_eq_true _⟩
        obtain ⟨found, hfound⟩ := Option.isSome_iff_exists.mp hsome
        exact ⟨_, Option.map_eq_some_iff.mpr ⟨found, hfound, rfl⟩⟩

/-- The declared fields are what is declared under the declared names. -/
theorem mem_declaredFields_iff :
    field ∈ model.declaredFields ↔ model.declared? field.name = some field := by
  rw [declaredFields, List.mem_filterMap]
  constructor
  · rintro ⟨name, _, h⟩
    obtain rfl := name_of_declared? h
    exact h
  · intro h
    exact ⟨field.name, exists_declared?_iff.mp ⟨field, h⟩, h⟩

/-- The declared fields have the declared names. -/
theorem map_name_declaredFields (model : Model) :
    model.declaredFields.map Field.name = model.declaredNames := by
  rw [declaredFields, List.map_filterMap]
  have hsame : ∀ name ∈ model.declaredNames,
      (model.declared? name).map Field.name = some name := by
    intro name hname
    obtain ⟨field, hfield⟩ := exists_declared?_iff.mpr hname
    rw [hfield, Option.map_some, name_of_declared? hfield]
  exact (List.filterMap_congr hsame).trans List.filterMap_some

/-- Of the fields of a name, however often it is declared, the last one counts. -/
theorem getLast?_filter_declaredFields (model : Model) (name : String) :
    (model.declaredFields.filter (·.name = name)).getLast? = model.declared? name := by
  have hmem : ∀ field ∈ model.declaredFields.filter (·.name = name),
      model.declared? name = some field := by
    intro field hfield
    obtain ⟨hdeclared, hname⟩ := List.mem_filter.mp hfield
    rw [← of_decide_eq_true hname]
    exact mem_declaredFields_iff.mp hdeclared
  cases hlast : (model.declaredFields.filter (·.name = name)).getLast? with
  | some field => exact (hmem field (List.mem_of_getLast? hlast)).symm
  | none =>
    cases hdeclared : model.declared? name with
    | none => rfl
    | some field =>
      have hname := name_of_declared? hdeclared
      have hfield : field ∈ model.declaredFields := by
        rw [mem_declaredFields_iff, hname]
        exact hdeclared
      have hempty := List.getLast?_eq_none_iff.mp hlast
      have hfound : field ∈ model.declaredFields.filter (·.name = name) :=
        List.mem_filter.mpr ⟨hfield, decide_eq_true hname⟩
      rw [hempty] at hfound
      cases hfound

end Model

namespace Schema

variable {schema : Schema} {type name : String} {field : Field} {listed : List Field}

/-- What the nearest model of the lineage declares under a name. -/
def nearest? (schema : Schema) (type name : String) : Option Field :=
  (schema.lineage type).models.findSome? fun model => model.declared? name

/-- The names that the lineage of a type declares, those of the type itself first. -/
def declaredNames (schema : Schema) (type : String) : List String :=
  (schema.lineage type).models.flatMap Model.declaredNames

/-- The lineage of a type declares every name once. -/
def DeclaresOnce (schema : Schema) (type : String) : Prop := (schema.declaredNames type).Nodup

instance (schema : Schema) (type : String) : Decidable (schema.DeclaresOnce type) :=
  inferInstanceAs (Decidable (schema.declaredNames type).Nodup)

/-- The fields of one name that the lineage of a type declares lead to the same records in the
same way, or are scalars all of them. -/
def DeclaresAlike (schema : Schema) (type : String) : Prop :=
  ∀ field ∈ (schema.lineage type).models.flatMap Model.declaredFields,
    ∀ other ∈ (schema.lineage type).models.flatMap Model.declaredFields,
      field.name = other.name → field.target? = other.target? ∧ field.flags? = other.flags?

/-- Wherever a name is declared again, it leads to the same records in the same way. -/
def RedeclaresAlike (schema : Schema) : Prop :=
  ∀ entry ∈ schema.models, schema.DeclaresAlike entry.1

instance (schema : Schema) : Decidable schema.RedeclaresAlike :=
  inferInstanceAs (Decidable (∀ entry ∈ schema.models,
    ∀ field ∈ (schema.lineage entry.1).models.flatMap Model.declaredFields,
      ∀ other ∈ (schema.lineage entry.1).models.flatMap Model.declaredFields,
        field.name = other.name → field.target? = other.target? ∧ field.flags? = other.flags?))

/-- No model declares a name. -/
def NoFieldNamed (schema : Schema) (name : String) : Prop :=
  ∀ entry ∈ schema.models, name ∉ entry.2.declaredNames

/-- Under any name but that of the identity a type has what the nearest model declares. -/
theorem resolve_eq_ok_iff (hname : name ≠ identityField) :
    schema.resolve type name = .ok field ↔ schema.nearest? type name = some field := by
  rw [resolve, if_neg hname]
  constructor
  · intro h
    rcases conclude_eq_ok h with hfound | hexhausted
    · exact hfound
    · cases hexhausted
  · intro h
    unfold nearest? at h
    simp only [h]
    rfl

/-- The nearest field of a name has this name. -/
theorem name_of_nearest? (h : schema.nearest? type name = some field) : field.name = name := by
  obtain ⟨_, _, hdeclared⟩ := List.exists_of_findSome?_eq_some h
  exact Model.name_of_declared? hdeclared

/-- The fields are those of the lineage, unless it breaks off. -/
theorem fields_eq_ok_iff : schema.fields type = .ok listed ↔
    (schema.lineage type).missing = none ∧
      (schema.lineage type).models.reverse.flatMap Model.declaredFields = listed := by
  rw [fields]
  cases (schema.lineage type).missing <;> simp

/-- A type whose bases are all there has fields. -/
theorem HasParents.exists_fields (h : schema.HasParents)
    (htype : (schema.models.get? type).isSome = true) :
    ∃ listed, schema.fields type = .ok listed :=
  ⟨_, fields_eq_ok_iff.mpr ⟨h.missing_climb _ htype, rfl⟩⟩

/-- The names of the listed fields are those that the lineage declares. -/
theorem map_name_perm_declaredNames (h : schema.fields type = .ok listed) :
    (listed.map Field.name).Perm (schema.declaredNames type) := by
  obtain ⟨_, rfl⟩ := fields_eq_ok_iff.mp h
  rw [List.map_flatMap, declaredNames]
  simp only [Model.map_name_declaredFields]
  exact (List.reverse_perm _).flatMap_right _

/-- A name is listed as often as the lineage declares it. -/
theorem length_filter_listed (h : schema.fields type = .ok listed) (name : String) :
    (listed.filter (·.name = name)).length = (schema.declaredNames type).count name := by
  rw [← (map_name_perm_declaredNames h).count_eq, List.count, List.countP_map,
    List.countP_eq_length_filter]
  rfl

/-- Of the listed fields of a name, the last one is the nearest. -/
theorem getLast?_filter_listed (h : schema.fields type = .ok listed) (name : String) :
    (listed.filter (·.name = name)).getLast? = schema.nearest? type name := by
  obtain ⟨_, rfl⟩ := fields_eq_ok_iff.mp h
  rw [nearest?]
  induction (schema.lineage type).models with
  | nil => rfl
  | cons model models ih =>
    rw [List.reverse_cons, List.flatMap_append, List.filter_append, List.getLast?_append, ih,
      List.flatMap_singleton, Model.getLast?_filter_declaredFields, List.findSome?_cons]
    cases model.declared? name <;> rfl

/-- A listed field whose name the lineage declares once is the nearest of its name. -/
theorem nearest?_of_mem_listed (h : schema.fields type = .ok listed)
    (hfield : field ∈ listed) (honce : (schema.declaredNames type).count field.name = 1) :
    schema.nearest? type field.name = some field := by
  rw [← getLast?_filter_listed h]
  have hlength := (length_filter_listed h field.name).trans honce
  obtain ⟨only, honly⟩ := List.length_eq_one_iff.mp hlength
  have hmem : field ∈ listed.filter (·.name = field.name) :=
    List.mem_filter.mpr ⟨hfield, decide_eq_true rfl⟩
  rw [honly] at hmem ⊢
  rw [List.mem_singleton.mp hmem]
  rfl

/-- Every listed field is declared by the lineage. -/
theorem name_mem_of_mem_listed (h : schema.fields type = .ok listed) (hfield : field ∈ listed) :
    field.name ∈ schema.declaredNames type :=
  (map_name_perm_declaredNames h).mem_iff.mp (List.mem_map_of_mem hfield)

/-- Where no model declares the name of the identity, no listed field has it. -/
theorem NoFieldNamed.ne_of_mem_listed (hschema : schema.NoFieldNamed name)
    (h : schema.fields type = .ok listed) (hfield : field ∈ listed) : field.name ≠ name := by
  rintro rfl
  obtain ⟨model, hmodel, hmem⟩ := List.mem_flatMap.mp (name_mem_of_mem_listed h hfield)
  obtain ⟨_, hentry⟩ := mem_climb hmodel
  exact hschema _ hentry hmem

/-- If the lineage declares every name once, every listed field is the nearest of its name. -/
theorem DeclaresOnce.nearest?_of_mem_listed (honce : schema.DeclaresOnce type)
    (h : schema.fields type = .ok listed) (hfield : field ∈ listed) :
    schema.nearest? type field.name = some field :=
  Schema.nearest?_of_mem_listed h hfield
    (List.count_eq_one_of_mem honce (name_mem_of_mem_listed h hfield))

/-- The lineage of a type that is not there breaks off. -/
theorem exists_model_of_fields (h : schema.fields type = .ok listed) :
    ∃ model, (type, model) ∈ schema.models := by
  obtain ⟨hmissing, _⟩ := fields_eq_ok_iff.mp h
  rw [lineage, climb] at hmissing
  cases hmodel : schema.models.get? type with
  | none => simp [hmodel] at hmissing
  | some model => exact ⟨model, Entries.mem_of_get? hmodel⟩

/-- Under the name of a listed field the nearest field is listed, too. -/
theorem exists_nearest?_of_listed (h : schema.fields type = .ok listed)
    (hfield : field ∈ listed) :
    ∃ nearest, schema.nearest? type field.name = some nearest ∧ nearest ∈ listed := by
  have hmem : field ∈ listed.filter (·.name = field.name) :=
    List.mem_filter.mpr ⟨hfield, decide_eq_true rfl⟩
  cases hnearest : schema.nearest? type field.name with
  | none =>
    rw [← getLast?_filter_listed h, List.getLast?_eq_none_iff] at hnearest
    rw [hnearest] at hmem
    cases hmem
  | some nearest =>
    have hlast := (getLast?_filter_listed h field.name).trans hnearest
    exact ⟨nearest, rfl, (List.mem_filter.mp (List.mem_of_getLast? hlast)).1⟩

/-- Something is found under the name of a listed field. -/
theorem exists_resolve_of_listed (h : schema.fields type = .ok listed) (hfield : field ∈ listed) :
    ∃ found, schema.resolve type field.name = .ok found := by
  by_cases hname : field.name = identityField
  · rw [hname, resolve, if_pos rfl]
    exact exists_key_of_missing (fields_eq_ok_iff.mp h).1
  · obtain ⟨nearest, hnearest, _⟩ := exists_nearest?_of_listed h hfield
    exact ⟨nearest, (resolve_eq_ok_iff hname).mpr hnearest⟩

/-- If names are declared again alike, the nearest field of a listed name leads where every
listed field of this name leads. -/
theorem RedeclaresAlike.exists_nearest? (halike : schema.RedeclaresAlike)
    (h : schema.fields type = .ok listed) (hfield : field ∈ listed) :
    ∃ nearest, schema.nearest? type field.name = some nearest ∧
      nearest.target? = field.target? ∧ nearest.flags? = field.flags? := by
  obtain ⟨model, hmodel⟩ := exists_model_of_fields h
  have hdeclared : ∀ other ∈ listed,
      other ∈ (schema.lineage type).models.flatMap Model.declaredFields := by
    obtain ⟨_, rfl⟩ := fields_eq_ok_iff.mp h
    intro other hother
    exact ((List.reverse_perm _).flatMap_right _).mem_iff.mp hother
  obtain ⟨nearest, hnearest, hlisted⟩ := exists_nearest?_of_listed h hfield
  exact ⟨nearest, hnearest, halike _ hmodel nearest (hdeclared nearest hlisted) field
    (hdeclared field hfield) (name_of_nearest? hnearest)⟩

end Schema

end EntityQuery
