import EntityQuery.Proofs.Outcome
import EntityQuery.Proofs.Remote.Words
import EntityQuery.Proofs.Schema.Fields
import EntityQuery.Remote.Filter

/-!
# References and literals as terms

When the names of a schema are words, a reference is one word, and so is a literal that is
written for a declared type, apart from the quoted text in it.
-/

namespace EntityQuery

/-- A type whose literals are words or quoted texts. -/
def AttributeType.isChecked : AttributeType → Bool
  | string | number | decimal | boolean | enumeration _ => true
  | date | guid => false

namespace Schema

/-- The fields along a path are found under names. -/
theorem exists_resolve_of_mem_walk {schema : Schema} {type : String} {segments : List String}
    {chain : List Field} (h : schema.walk type segments = .ok chain) {field : Field}
    (hfield : field ∈ chain) : ∃ owner name, schema.resolve owner name = .ok field := by
  induction segments generalizing type chain with
  | nil =>
    obtain rfl := Except.ok.inj h
    cases hfield
  | cons segment rest ih =>
    cases rest with
    | nil =>
      obtain ⟨found, hfound, h⟩ := bind_eq_ok_iff.mp h
      obtain rfl := pure_eq_ok_iff.mp h
      rw [List.mem_singleton.mp hfield]
      exact ⟨type, segment, hfound⟩
    | cons next rest =>
      obtain ⟨found, others, hfound, _, hothers, rfl⟩ := walk_cons_eq_ok h
      rcases List.mem_cons.mp hfield with rfl | hmem
      · exact ⟨type, segment, hfound⟩
      · exact ih hothers hmem

/-- The fields along a path are found under names, and the last one is at its end. -/
theorem resolveEnd_eq_ok {schema : Schema} {type path : String} {chain : List Field}
    {last : Field} (h : schema.resolveEnd type path = .ok (chain, last)) :
    (∀ field ∈ chain, ∃ owner name, schema.resolve owner name = .ok field) ∧ last ∈ chain := by
  obtain ⟨found, hfound, h⟩ := bind_eq_ok_iff.mp h
  obtain ⟨segments, _, hwalk⟩ := bind_eq_ok_iff.mp hfound
  cases hlast : found.getLast? with
  | none => simp [hlast] at h
  | some field =>
    simp only [hlast, pure_eq_ok_iff, Prod.mk.injEq] at h
    obtain ⟨rfl, rfl⟩ := h
    exact ⟨fun other hother => exists_resolve_of_mem_walk hwalk hother,
      List.mem_of_getLast? hlast⟩

end Schema

namespace Remote

/-- The characters of words with separators between them end no word. -/
theorem isPlain_of_mem_intercalate {names : List String} (h : ∀ name ∈ names, IsWord name) :
    ∀ c ∈ (String.intercalate "/" names).toList, isPlain c = true := by
  intro c hc
  rcases Text.mem_of_mem_intercalate hc with hseparator | ⟨name, hname, hmem⟩
  · rw [List.mem_singleton.mp hseparator]
    decide
  · exact (h name hname).plain c hmem

/-- Words with separators between them are one word. -/
theorem isWord_intercalate {names : List String} (hne : names ≠ [])
    (h : ∀ name ∈ names, IsWord name) : IsWord (String.intercalate "/" names) := by
  have hplain := isPlain_of_mem_intercalate h
  obtain ⟨first, rest, rfl⟩ := List.exists_cons_of_ne_nil hne
  by_cases hrest : rest = []
  · rw [hrest, String.intercalate_singleton]
    exact h first List.mem_cons_self
  · have hseparator : '/' ∈ (String.intercalate "/" (first :: rest)).toList := by
      simp [String.intercalate_cons_of_ne_nil hrest]
    exact isWord_of_mem hplain hseparator (by decide)

/-- The text of a literal is one word, apart from a quoted text at its end. -/
def Literal.IsTerm : Literal → Prop
  | bare text => IsWord text
  | quoted _ => True
  | enumeration typeName _ => IsWord typeName

/-- The word of an operator is a word. -/
theorem isWord_operatorWord (op : Comparison) : IsWord (operatorWord op) := by
  cases op <;> decide

namespace Context

/-- The names that requests are made of are words: those of fields, of enumerations and of
the namespace. -/
structure HasWords (context : Context) : Prop where
  /-- Fields have words for names. -/
  fields : ∀ {type name : String} {field : Field},
    context.schema.resolve type name = .ok field → IsWord (context.remoteName field)
  /-- Enumerations have words for names. -/
  enumerations : ∀ {type name typeName : String} {field : Field},
    context.schema.resolve type name = .ok field →
      field.attributeType? = some (.enumeration typeName) → IsWord typeName
  /-- The namespace is a word. -/
  space : ∀ space, context.settings.typeNamespace = some space → IsWord space

/-- The names that a model brings into requests. -/
def requestNames (settings : RemoteSettings) (model : Model) : List String :=
  model.keyName.toList ++
    model.attributes.flatMap (fun declaration =>
      declaration.remoteName.getD (settings.nameCase.apply declaration.name) ::
        match declaration.type with
        | .enumeration typeName => [typeName]
        | _ => []) ++
    model.relationships.map fun relationship =>
      relationship.remoteName.getD (settings.nameCase.apply relationship.name)

/-- A field has the name of the identity in requests or one that a model brings into them. -/
theorem remoteName_of_resolve {context : Context} {type name : String} {field : Field}
    (h : context.schema.resolve type name = .ok field) :
    context.remoteName field = identityField ∨ ∃ entry ∈ context.schema.models,
      context.remoteName field ∈ requestNames context.settings entry.2 := by
  rcases Schema.resolve_eq_ok h with hkey | ⟨entry, hentry, hdeclared⟩
  · obtain ⟨remoteName, keyType, rfl⟩ := Schema.key_eq_ok hkey
    rcases Schema.remoteName_of_key hkey rfl with rfl | ⟨entry, hentry, hname⟩
    · exact .inl rfl
    · refine .inr ⟨entry, hentry, ?_⟩
      simp [requestNames, Context.remoteName, Field.remoteName?, hname]
  · refine .inr ⟨entry, hentry, ?_⟩
    simp only [requestNames, List.mem_append, List.mem_flatMap, List.mem_map]
    rcases hdeclared with ⟨declaration, hattribute, rfl⟩ | ⟨relationship, hrelationship, rfl⟩
    · exact .inl (.inr ⟨declaration, hattribute, List.mem_cons_self⟩)
    · exact .inr ⟨relationship, hrelationship, rfl⟩

/-- The names in requests are words if those of the models are. -/
theorem hasWords_of_requestNames {context : Context}
    (hmodels : ∀ entry ∈ context.schema.models,
      ∀ name ∈ requestNames context.settings entry.2, IsWord name)
    (hspace : ∀ space ∈ context.settings.typeNamespace, IsWord space) : context.HasWords where
  fields := by
    intro type name field hfield
    rcases remoteName_of_resolve hfield with hidentity | ⟨entry, hentry, hname⟩
    · rw [hidentity]
      decide
    · exact hmodels entry hentry _ hname
  enumerations := by
    intro type name typeName field hfield htype
    rcases Schema.resolve_eq_ok hfield with hkey | ⟨entry, hentry, hdeclared⟩
    · obtain ⟨remoteName, keyType, rfl⟩ := Schema.key_eq_ok hkey
      cases htype
    · rcases hdeclared with ⟨declaration, hattribute, rfl⟩ | ⟨relationship, _, rfl⟩
      · refine hmodels entry hentry typeName ?_
        simp only [requestNames, List.mem_append, List.mem_flatMap, List.mem_map]
        refine .inl (.inr ⟨declaration, hattribute, ?_⟩)
        rw [Field.attributeType?, Option.some.injEq] at htype
        simp [htype]
      · cases htype
  space := hspace

/-- The name of an enumeration is a word in its namespace, too. -/
theorem HasWords.qualify {context : Context} (h : context.HasWords) {typeName : String}
    (htype : IsWord typeName) : IsWord (context.settings.qualify typeName) := by
  unfold RemoteSettings.qualify
  cases hspace : context.settings.typeNamespace with
  | none => exact htype
  | some space =>
    by_cases hdot : typeName.toList.contains '.' = true
    · simp only [hdot, if_true]
      exact htype
    · simp only [hdot, Bool.false_eq_true, if_false]
      have hmem : '.' ∈ (space ++ "." ++ typeName).toList := by simp
      refine isWord_of_mem (fun c hc => ?_) hmem (by decide)
      simp only [String.toList_append, List.mem_append] at hc
      rcases hc with (hc | hc) | hc
      · exact (h.space space hspace).plain c hc
      · rw [List.mem_singleton.mp hc]
        decide
      · exact htype.plain c hc

/-- A reference that was found is made of words, and its field is found under a name. -/
theorem reference_eq_ok {context : Context} {entityType path : String} {reference : Reference}
    {field : Field} (h : context.HasWords)
    (hok : context.reference (.root entityType) path = .ok (reference, field)) :
    reference.binder? = none ∧ reference.names ≠ [] ∧ (∀ name ∈ reference.names, IsWord name) ∧
      ∃ owner name, context.schema.resolve owner name = .ok field := by
  obtain ⟨⟨chain, last⟩, hend, hok⟩ := bind_eq_ok_iff.mp hok
  obtain ⟨rfl, rfl⟩ := Prod.mk.inj (pure_eq_ok_iff.mp hok)
  obtain ⟨hchain, hlast⟩ := Schema.resolveEnd_eq_ok hend
  refine ⟨rfl, ?_, ?_, hchain last hlast⟩
  · simpa using List.ne_nil_of_mem hlast
  · intro name hname
    obtain ⟨other, hother, rfl⟩ := List.mem_map.mp hname
    obtain ⟨owner, found, hresolve⟩ := hchain other hother
    exact h.fields hresolve

/-- A path that was looked up is its reference, or leads on to the key of a related record. -/
theorem resolveOperand_field_eq_ok {context : Context} {scope : Scope} {other : Operand}
    {path : String} {resolved : Resolved}
    (hok : context.resolveOperand scope other (.field path) = .ok resolved) :
    ∃ reference field, context.reference scope path = .ok (reference, field) ∧
      ((¬(field.kind = .belongsTo ∧ isSolidLiteral other = true) ∧
          resolved = .field reference field) ∨
        field.kind = .belongsTo ∧ isSolidLiteral other = true ∧
          ∃ key, context.schema.key field.target = .ok key ∧
            resolved = .field
              { reference with names := reference.names ++ [context.remoteName key] } key) := by
  obtain ⟨⟨reference, field⟩, hreference, hok⟩ := bind_eq_ok_iff.mp hok
  dsimp only at hok
  refine ⟨reference, field, hreference, ?_⟩
  by_cases hkey : field.kind = .belongsTo ∧ isSolidLiteral other = true
  · rw [if_pos hkey] at hok
    obtain ⟨key, hfound, hok⟩ := bind_eq_ok_iff.mp hok
    exact .inr ⟨hkey.1, hkey.2, key, hfound, (pure_eq_ok_iff.mp hok).symm⟩
  · rw [if_neg hkey] at hok
    exact .inl ⟨hkey, (pure_eq_ok_iff.mp hok).symm⟩

end Context

/-- A reference to words is a word. -/
theorem Reference.isWord_text {reference : Reference} (hbinder : reference.binder? = none)
    (hne : reference.names ≠ []) (h : ∀ name ∈ reference.names, IsWord name) :
    IsWord reference.text := by
  rw [Reference.text, hbinder]
  exact isWord_intercalate hne h

/-- A path that was looked up is a word, and the field that decides is found under a name. -/
theorem Context.HasWords.resolveOperand {context : Context} (h : context.HasWords)
    {entityType path : String} {other : Operand} {resolved : Context.Resolved}
    (hok : context.resolveOperand (.root entityType) other (.field path) = .ok resolved) :
    ∃ reference field, resolved = .field reference field ∧ IsWord reference.text ∧
      ∃ owner name, context.schema.resolve owner name = .ok field := by
  obtain ⟨reference, field, hreference, hcases⟩ := Context.resolveOperand_field_eq_ok hok
  obtain ⟨hbinder, hne, hwords, hfield⟩ := Context.reference_eq_ok h hreference
  rcases hcases with ⟨_, rfl⟩ | ⟨_, _, key, hkey, rfl⟩
  · exact ⟨reference, field, rfl, Reference.isWord_text hbinder hne hwords, hfield⟩
  · have hresolve : context.schema.resolve field.target identityField = .ok key := by
      rw [Schema.resolve, if_pos rfl, hkey]
    refine ⟨_, key, rfl, Reference.isWord_text hbinder (by simp) ?_, _, _, hresolve⟩
    intro name hname
    rcases List.mem_append.mp hname with hname | hname
    · exact hwords name hname
    · rw [List.mem_singleton.mp hname]
      exact h.fields hresolve

/-- The word that stands for no value is a word. -/
theorem isWord_null : IsWord "null" := by decide

/-- Truth values are words. -/
theorem isWord_text_bool (b : Bool) : IsWord (Value.bool b).text := by
  cases b <;> decide

/-- A number that is written for a numeric field is a word. -/
theorem isWord_of_numericLiteral {field : Field} {value : Value} {literal : Literal}
    (h : Context.numericLiteral field value = .ok literal) :
    ∃ text, literal = .bare text ∧ IsWord text := by
  cases value with
  | int n =>
    obtain rfl := Except.ok.inj h
    exact ⟨_, rfl, isWord_toString_int n.toInt⟩
  | float x =>
    obtain rfl := Except.ok.inj h
    exact ⟨_, rfl, isWord_float x⟩
  | string raw =>
    by_cases hnumber : Decimal.isFiniteNumber (Text.trim raw) = true
    · simp only [Context.numericLiteral, hnumber, if_true] at h
      obtain rfl := Except.ok.inj h
      exact ⟨_, rfl, isWord_of_isFiniteNumber hnumber⟩
    · simp [Context.numericLiteral, hnumber] at h
  | _ => simp [Context.numericLiteral] at h

/-- A truth value that is written for a boolean field is a word. -/
theorem isWord_of_booleanLiteral {field : Field} {value : Value} {literal : Literal}
    (h : Context.booleanLiteral field value = .ok literal) :
    ∃ text, literal = .bare text ∧ IsWord text := by
  cases value with
  | bool b =>
    obtain rfl := Except.ok.inj h
    exact ⟨_, rfl, isWord_text_bool b⟩
  | string raw =>
    simp only [Context.booleanLiteral] at h
    generalize Text.lowercaseAscii (Text.trim raw) = word at h
    by_cases hword : word = "true" ∨ word = "false"
    · rw [if_pos hword] at h
      obtain rfl := Except.ok.inj h
      refine ⟨word, rfl, ?_⟩
      rcases hword with rfl | rfl
      · exact isWord_text_bool true
      · exact isWord_text_bool false
    · simp [hword] at h
  | _ => simp [Context.booleanLiteral] at h

/-- Without a declared type, everything but an instant is written as a word or as a quoted
text. -/
theorem isTerm_of_plainLiteral {context : Context} {value : Value} {literal : Literal}
    (hinstant : ∀ t, value ≠ .instant t) (h : context.plainLiteral value = .ok literal) :
    literal.IsTerm := by
  cases value with
  | null =>
    obtain rfl := Except.ok.inj h
    exact isWord_null
  | bool b =>
    obtain rfl := Except.ok.inj h
    exact isWord_text_bool b
  | int n =>
    obtain rfl := Except.ok.inj h
    exact isWord_toString_int n.toInt
  | float x =>
    obtain rfl := Except.ok.inj h
    exact isWord_float x
  | string text =>
    obtain rfl := Except.ok.inj h
    trivial
  | instant t => exact absurd rfl (hinstant t)
  | list items => cases h
  | record fields => cases h

/-- Against a checked type, everything but an instant for a text is written as a term. -/
theorem isTerm_of_fieldLiteral {context : Context} (h : context.HasWords) {owner name : String}
    {field : Field} (hfield : context.schema.resolve owner name = .ok field)
    (htype : field.attributeType?.any AttributeType.isChecked = true) {value : Value}
    (hinstant : field.attributeType? = some .string → ∀ t, value ≠ .instant t)
    {literal : Literal} (hok : context.fieldLiteral field value = .ok literal) :
    literal.IsTerm := by
  have hbare : (∃ text, literal = .bare text ∧ IsWord text) → literal.IsTerm := by
    rintro ⟨text, rfl, hword⟩
    exact hword
  cases hattribute : field.attributeType? with
  | none => simp [hattribute] at htype
  | some type =>
    simp only [Context.fieldLiteral, hattribute] at hok
    cases type with
    | string => exact isTerm_of_plainLiteral (hinstant hattribute) hok
    | number => exact hbare (isWord_of_numericLiteral hok)
    | decimal => exact hbare (isWord_of_numericLiteral hok)
    | boolean => exact hbare (isWord_of_booleanLiteral hok)
    | enumeration typeName =>
      obtain rfl := Except.ok.inj hok
      exact h.qualify (h.enumerations hfield hattribute)
    | date => simp [hattribute, AttributeType.isChecked] at htype
    | guid => simp [hattribute, AttributeType.isChecked] at htype

end Remote

end EntityQuery
