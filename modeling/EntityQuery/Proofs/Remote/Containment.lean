import EntityQuery.Proofs.Instant.Writing
import EntityQuery.Proofs.Remote.Terms

/-!
# Literals stay apart from the filter

Whatever value an attribute is compared with, its literal ends where it seems to end: blanks,
commas, quotes and parentheses stand in it only between quotes, where quotes are doubled.
The text of an identifier is passed on without a look at it, and an instant that RFC 3339
cannot write has a text with blanks, so of these nothing is said. A list or a record is
refused wherever a literal is checked.
-/

namespace EntityQuery

namespace Remote

/-- A text that is one literal: characters that end no word, and perhaps a quoted text behind
them. -/
def IsContained (text : String) : Prop :=
  text ≠ "" ∧ ∃ front : String, (∀ c ∈ front.toList, isPlain c = true) ∧
    (text = front ∨ ∃ inner, text = front ++ Text.quote inner)

/-- Without a quote in it, a text that is one literal has nothing that ends a word. -/
theorem IsContained.isPlain {text : String} (h : IsContained text)
    (hquote : '\'' ∉ text.toList) : ∀ c ∈ text.toList, isPlain c = true := by
  obtain ⟨_, front, hplain, rfl | ⟨inner, rfl⟩⟩ := h
  · exact hplain
  · simp [Text.quote] at hquote

/-- A word is one literal. -/
theorem IsWord.isContained {text : String} (h : IsWord text) : IsContained text := by
  refine ⟨?_, text, h.plain, .inl rfl⟩
  rintro rfl
  exact h.nonempty rfl

/-- So is a quoted text, behind characters that end no word or behind none. -/
theorem isContained_append_quote {front : String} (h : ∀ c ∈ front.toList, isPlain c = true)
    (inner : String) : IsContained (front ++ Text.quote inner) := by
  refine ⟨fun heq => ?_, front, h, .inr ⟨inner, rfl⟩⟩
  have hchars := congrArg String.toList heq
  simp [Text.quote] at hchars

theorem isContained_quote (text : String) : IsContained (Text.quote text) := by
  have hempty : IsContained ("" ++ Text.quote text) := isContained_append_quote (by simp) text
  rwa [String.empty_append] at hempty

/-- A term is one literal. -/
theorem Literal.IsTerm.isContained {literal : Literal} (h : literal.IsTerm) :
    IsContained literal.text := by
  cases literal with
  | bare text => exact IsWord.isContained h
  | quoted text => exact isContained_quote text
  | enumeration typeName text => exact isContained_append_quote (IsWord.plain h) text

/-- The digits of a padded number end no word. -/
theorem isPlain_of_mem_padded {width n : Nat} : ∀ c ∈ Instant.padded width n, isPlain c = true :=
  fun _ hc => isPlain_of_isDigit (Instant.isDigit_of_mem_padded hc)

/-- Neither does anything in a date. -/
theorem isPlain_of_mem_dateText (date : Calendar.Date) :
    ∀ c ∈ Instant.dateText date, isPlain c = true := by
  have hyear : ∀ c ∈ Instant.yearText date.year, isPlain c = true := by
    unfold Instant.yearText
    split
    · exact List.forall_mem_cons.mpr ⟨by decide, isPlain_of_mem_padded⟩
    · exact isPlain_of_mem_padded
  simp only [Instant.dateText, List.forall_mem_append, List.forall_mem_cons]
  exact ⟨⟨hyear, by decide, isPlain_of_mem_padded⟩, by decide, isPlain_of_mem_padded⟩

/-- Neither does anything on a clock. -/
theorem isPlain_of_mem_clockText (t : Instant) : ∀ c ∈ t.clockText, isPlain c = true := by
  simp only [Instant.clockText, List.forall_mem_append, List.forall_mem_cons]
  exact ⟨⟨by decide, isPlain_of_mem_padded⟩, by decide, isPlain_of_mem_padded⟩

/-- Neither does anything in an offset. -/
theorem isPlain_of_mem_offsetText (offset : Int) :
    ∀ c ∈ Instant.offsetText offset, isPlain c = true := by
  unfold Instant.offsetText
  split
  · exact List.all_eq_true.mp (by decide)
  · simp only [List.forall_mem_append, List.forall_mem_cons]
    refine ⟨⟨?_, isPlain_of_mem_padded⟩, by decide, isPlain_of_mem_padded⟩
    unfold Instant.offsetSign
    split <;> decide

/-- The written form of an instant is a word. -/
theorem isWord_text_of_isExpressible {t : Instant} (h : t.isExpressible = true) :
    IsWord t.text := by
  have hplaces : ∀ c ∈ (if t.nanosecond = 0 then [] else '.' :: Instant.placesText t.nanosecond),
      isPlain c = true := by
    split
    · simp
    · exact List.forall_mem_cons.mpr ⟨by decide, fun c hc =>
        isPlain_of_isDigit (Instant.isDigit_of_mem_placesText hc)⟩
  have htext : t.text.toList = Instant.dateText t.date ++ 'T' :: Instant.padded 2 t.hour ++
      t.clockText ++ (if t.nanosecond = 0 then [] else '.' :: Instant.placesText t.nanosecond) ++
        Instant.offsetText t.offset := by
    simp [Instant.text, Instant.rfc3339?, h]
  have hseparator : 'T' ∈ t.text.toList := by simp [htext]
  refine isWord_of_mem ?_ hseparator (by decide)
  simp only [htext, List.forall_mem_append, List.forall_mem_cons]
  exact ⟨⟨⟨⟨isPlain_of_mem_dateText _, by decide, isPlain_of_mem_padded⟩,
    isPlain_of_mem_clockText t⟩, hplaces⟩, isPlain_of_mem_offsetText _⟩

end Remote

/-- A list or a record. -/
def Value.isCompound : Value → Bool
  | list _ | record _ => true
  | _ => false

/-- A choice of dates that fits into filters: what RFC 3339 can write is written as one
literal, and lists and records are no dates. -/
structure DateStyle.FitsFilters (dates : DateStyle) : Prop where
  /-- Instants with a written form are literals. -/
  contained : ∀ t : Instant, t.isExpressible = true → Remote.IsContained (dates.write t false)
  /-- Only single values are dates. -/
  single : ∀ value : Value, value.isCompound = true → dates.read? value = none

/-- The standard choice fits into filters. -/
theorem DateStyle.fitsFilters_standard : DateStyle.standard.FitsFilters where
  contained _ h := (Remote.isWord_text_of_isExpressible h).isContained
  single value h := by
    cases value with
    | list items => rfl
    | record fields => rfl
    | _ => cases h

namespace Field

/-- The field of an identifier whose text is passed on as it is. -/
def takesAnyText : Field → Bool
  | key _ _ type => type != .string
  | scalar _ declaration => declaration.type == .guid
  | related .. => false

/-- A field against which only single values are written. -/
def refusesCompound : Field → Bool
  | key .. => false
  | scalar _ declaration =>
    match declaration.type with
    | .string | .number | .decimal | .boolean => true
    | .date | .guid | .enumeration _ => false
  | related .. => true

/-- The instant that is written for a value against a field, if one is. -/
def writtenInstant? (dates : DateStyle) (field : Field) (value : Value) : Option Instant :=
  match field with
  | key .. => none
  | scalar _ declaration =>
    match declaration.type with
    | .date => dates.read? value
    | .string => value.asInstant?
    | _ => none
  | related .. => value.asInstant?

end Field

namespace Remote

namespace Context

variable {context : Context} {entityType : String}

/-- Without a declared type, a value is one literal unless it is an instant without a written
form. -/
theorem isContained_of_plainLiteral (hdates : context.dates.FitsFilters) {value : Value}
    {literal : Literal} (hok : context.plainLiteral value = .ok literal)
    (hinstant : ∀ t ∈ value.asInstant?, t.isExpressible = true) : IsContained literal.text := by
  by_cases hvalue : ∃ t, value = .instant t
  · obtain ⟨t, rfl⟩ := hvalue
    obtain rfl := Except.ok.inj hok
    exact hdates.contained t (hinstant t rfl)
  · exact (isTerm_of_plainLiteral (fun t heq => hvalue ⟨t, heq⟩) hok).isContained

/-- Against a field, a value is one literal unless its text is passed on and is none, or it is
written as an instant that has no written form. -/
theorem isContained_of_fieldLiteral (h : context.HasWords) (hdates : context.dates.FitsFilters)
    {owner name : String} {field : Field} (hfield : context.schema.resolve owner name = .ok field)
    {value : Value} {literal : Literal} (hok : context.fieldLiteral field value = .ok literal)
    (htext : field.takesAnyText = true → IsContained value.text)
    (hinstant : ∀ t ∈ field.writtenInstant? context.dates value, t.isExpressible = true) :
    IsContained literal.text := by
  cases field with
  | key entity remoteName type =>
    obtain rfl := Except.ok.inj hok
    cases type with
    | string => exact isContained_quote value.text
    | _ => exact htext rfl
  | related owner declaration => exact isContained_of_plainLiteral hdates hok hinstant
  | scalar owner declaration =>
    have hattribute : (Field.scalar owner declaration).attributeType? =
        some declaration.type := rfl
    by_cases hstring : declaration.type = .string
    · simp only [fieldLiteral, hattribute, hstring] at hok
      simp only [Field.writtenInstant?, hstring] at hinstant
      exact isContained_of_plainLiteral hdates hok hinstant
    · by_cases hchecked : declaration.type.isChecked = true
      · have hterm : literal.IsTerm := by
          refine isTerm_of_fieldLiteral h hfield ?_ (fun heq => ?_) hok
          · simpa [hattribute] using hchecked
          · exact absurd (Option.some.inj heq) hstring
        exact hterm.isContained
      · cases htype : declaration.type with
        | date =>
          simp only [fieldLiteral, hattribute, htype, dateLiteral] at hok
          simp only [Field.writtenInstant?, htype] at hinstant
          cases hread : context.dates.read? value with
          | none => simp [hread] at hok
          | some t =>
            simp only [hread, Except.ok.injEq] at hok
            subst hok
            exact hdates.contained t (hinstant t hread)
        | guid =>
          simp only [fieldLiteral, hattribute, htype] at hok
          obtain rfl := Except.ok.inj hok
          exact htext (by simp [Field.takesAnyText, htype])
        | _ => simp [htype, AttributeType.isChecked] at hchecked

/-- Where only single values are written, a list or a record is an invalid argument. -/
theorem fieldLiteral_of_isCompound {field : Field} (hfield : field.refusesCompound = true)
    {value : Value} (hvalue : value.isCompound = true) :
    ∃ message, context.fieldLiteral field value = .error (.invalidArguments message) := by
  have hplain : ∃ message, context.plainLiteral value = .error (.invalidArguments message) := by
    cases value with
    | list items => exact ⟨_, rfl⟩
    | record fields => exact ⟨_, rfl⟩
    | _ => cases hvalue
  cases field with
  | key entity remoteName type => cases hfield
  | related owner declaration => exact hplain
  | scalar owner declaration =>
    have hattribute : (Field.scalar owner declaration).attributeType? =
        some declaration.type := rfl
    have hmismatch : (∃ message, numericLiteral (.scalar owner declaration) value =
          .error (.invalidArguments message)) ∧
        ∃ message, booleanLiteral (.scalar owner declaration) value =
          .error (.invalidArguments message) := by
      cases value with
      | list items => exact ⟨⟨_, rfl⟩, _, rfl⟩
      | record fields => exact ⟨⟨_, rfl⟩, _, rfl⟩
      | _ => cases hvalue
    cases htype : declaration.type with
    | string => simpa only [fieldLiteral, hattribute, htype] using hplain
    | number => simpa only [fieldLiteral, hattribute, htype] using hmismatch.1
    | decimal => simpa only [fieldLiteral, hattribute, htype] using hmismatch.1
    | boolean => simpa only [fieldLiteral, hattribute, htype] using hmismatch.2
    | _ => simp [Field.refusesCompound, htype] at hfield

/-- Against a date, a list or a record is an invalid date. -/
theorem fieldLiteral_date_of_isCompound (hdates : context.dates.FitsFilters) {field : Field}
    (hfield : field.attributeType? = some .date) {value : Value}
    (hvalue : value.isCompound = true) :
    context.fieldLiteral field value = .error (.invalidDate value.text) := by
  simp only [fieldLiteral, hfield, dateLiteral, hdates.single value hvalue]

/-- A path that was looked up is compared with a value as a reference with a literal. -/
theorem filterText_simple {path : String} {op : Comparison} {value : Value}
    (hvalue : value.isNull = false) {reference : Reference} {field : Field}
    (h : context.resolveOperand (.root entityType) (.literal value) (.field path) =
      .ok (.field reference field)) :
    context.filterText entityType (.simple path op value) =
      (context.fieldLiteral field value).map fun literal =>
        reference.text ++ " " ++ operatorWord op ++ " " ++ literal.text := by
  have hliteral : context.literal value (some field) none = context.fieldLiteral field value := by
    simp [Context.literal, hvalue]
  have hcomparison : context.expression entityType (.simple path op value) =
      (context.fieldLiteral field value).map fun literal =>
        .comparison (.reference reference false) op (.literal literal) := by
    have hunfold : context.expression entityType (.simple path op value) =
        context.comparison (.root entityType) (.field path) op (.literal value) none := rfl
    rw [hunfold, comparison, h, ← hliteral]
    simp only [bind, Except.bind, resolveOperand, side, Resolved.field?]
    cases context.literal value (some field) none <;> rfl
  rw [filterText, hcomparison]
  cases context.fieldLiteral field value <;> rfl

/-- A comparison that was written had its path looked up. -/
theorem exists_resolved_of_filterText {path : String} {op : Comparison} {value : Value}
    {text : String} (hok : context.filterText entityType (.simple path op value) = .ok text) :
    ∃ resolved, context.resolveOperand (.root entityType) (.literal value) (.field path) =
      .ok resolved := by
  obtain ⟨expression, hexpression, _⟩ := map_eq_ok_iff.mp hok
  obtain ⟨resolved, hresolved, _⟩ := bind_eq_ok_iff.mp hexpression
  exact ⟨resolved, hresolved⟩

/-- A comparison of an attribute with a value is written as the attribute, the operator and
one literal. Where the text of an identifier is passed on it must be a literal itself, and
where an instant is written it must have a written form. A list or a record is an invalid
date against a date, and an invalid argument wherever only single values are written. -/
theorem filterText_simple_contained (h : context.HasWords) (hdates : context.dates.FitsFilters)
    {path : String} {op : Comparison} {value : Value} (hvalue : value.isNull = false) :
    (∀ text, context.filterText entityType (.simple path op value) = .ok text →
      ∃ reference field literal,
        context.resolveOperand (.root entityType) (.literal value) (.field path) =
            .ok (.field reference field) ∧
          IsWord reference.text ∧
          text = reference.text ++ " " ++ operatorWord op ++ " " ++ literal ∧
          ((field.takesAnyText = true → IsContained value.text) →
            (∀ t ∈ field.writtenInstant? context.dates value, t.isExpressible = true) →
              IsContained literal)) ∧
      ∀ reference field,
        context.resolveOperand (.root entityType) (.literal value) (.field path) =
            .ok (.field reference field) →
          value.isCompound = true →
            (field.attributeType? = some .date →
              context.filterText entityType (.simple path op value) =
                .error (.invalidDate value.text)) ∧
            (field.refusesCompound = true →
              ∃ message, context.filterText entityType (.simple path op value) =
                .error (.invalidArguments message)) := by
  refine ⟨fun text hok => ?_, fun reference field hresolved hcompound => ⟨?_, ?_⟩⟩
  · obtain ⟨resolved, hresolved⟩ := exists_resolved_of_filterText hok
    obtain ⟨reference, field, rfl, hword, owner, name, hfield⟩ := h.resolveOperand hresolved
    rw [filterText_simple hvalue hresolved] at hok
    obtain ⟨literal, hliteral, rfl⟩ := map_eq_ok_iff.mp hok
    exact ⟨reference, field, literal.text, hresolved, hword, rfl,
      isContained_of_fieldLiteral h hdates hfield hliteral⟩
  · intro hdate
    rw [filterText_simple hvalue hresolved, fieldLiteral_date_of_isCompound hdates hdate hcompound]
    rfl
  · intro hrefuses
    obtain ⟨message, hmessage⟩ := fieldLiteral_of_isCompound hrefuses hcompound
    refine ⟨message, ?_⟩
    rw [filterText_simple hvalue hresolved, hmessage]
    rfl

/-- The requests for deliveries, which have a due date and the identifier of a courier. -/
def deliveries : Context where
  schema.models := [
    ("delivery", {
      name := "delivery"
      attributes := [⟨"due", .date, none⟩, ⟨"courier", .guid, none⟩] })]
  settings := {}

theorem hasWords_deliveries : deliveries.HasWords := by
  refine hasWords_of_requestNames ?_ (by simp [deliveries])
  intro entry hentry
  rw [List.mem_singleton.mp hentry]
  decide +kernel

/-- The due date is looked up under its name in capitals. -/
theorem resolveOperand_due {value : Value} :
    deliveries.resolveOperand (.root "delivery") (.literal value) (.field "due") =
      .ok (.field ⟨none, ["Due"]⟩ (.scalar "delivery" ⟨"due", .date, none⟩)) := by
  have hreference : deliveries.reference (.root "delivery") "due" =
      .ok (⟨none, ["Due"]⟩, .scalar "delivery" ⟨"due", .date, none⟩) := by decide +kernel
  simp [resolveOperand, hreference, bind, Except.bind, Field.kind, pure, Except.pure]

/-- A due date is written as one literal, and a list is no due date. -/
theorem filterText_due_contained :
    deliveries.HasWords ∧ deliveries.dates.FitsFilters ∧
      (Value.string "2020-05-01").isNull = false ∧ (Value.list [.int 1]).isNull = false ∧
        deliveries.filterText "delivery" (.simple "due" .leq (.string "2020-05-01")) =
            .ok "Due le 2020-05-01T00:00:00Z" ∧
          (∃ reference literal, "Due le 2020-05-01T00:00:00Z" =
              Reference.text reference ++ " " ++ operatorWord .leq ++ " " ++ literal ∧
            IsContained literal) ∧
          deliveries.filterText "delivery" (.simple "due" .leq (.list [.int 1])) =
            .error (.invalidDate (Value.list [.int 1]).text) := by
  have hok : deliveries.filterText "delivery" (.simple "due" .leq (.string "2020-05-01")) =
      .ok "Due le 2020-05-01T00:00:00Z" := by decide +kernel
  have hdates : deliveries.dates.FitsFilters := DateStyle.fitsFilters_standard
  obtain ⟨reference, field, literal, hresolved, _, htext, hcontained⟩ :=
    (filterText_simple_contained hasWords_deliveries hdates rfl).1 _ hok
  rw [resolveOperand_due, Except.ok.injEq, Resolved.field.injEq] at hresolved
  obtain ⟨rfl, rfl⟩ := hresolved
  refine ⟨hasWords_deliveries, hdates, rfl, rfl, hok, ⟨_, literal, htext, ?_⟩, ?_⟩
  · refine hcontained (fun hany => by cases hany) fun t ht => ?_
    have hread : deliveries.dates.read? (.string "2020-05-01") =
        some ⟨1588291200000000000, 0⟩ := by decide +kernel
    obtain rfl : (⟨1588291200000000000, 0⟩ : Instant) = t := Option.some.inj (hread ▸ ht)
    decide +kernel
  · exact ((filterText_simple_contained hasWords_deliveries hdates rfl).2 _ _
      resolveOperand_due rfl).1 rfl

/-- The text that is compared with an identifier can go on after the literal, and a list that
is compared with a date is not an invalid argument. -/
theorem not_contained_courier :
    deliveries.HasWords ∧
      ¬ (∀ text, deliveries.filterText "delivery"
          (.simple "courier" .eq (.string "x or true")) = .ok text →
        ∃ literal, text = "Courier" ++ " " ++ operatorWord .eq ++ " " ++ literal ∧
          IsContained literal) ∧
      ¬ ∃ message, deliveries.filterText "delivery" (.simple "due" .eq (.list [.int 1])) =
        .error (.invalidArguments message) := by
  refine ⟨hasWords_deliveries, fun hall => ?_, ?_⟩
  · have hok : deliveries.filterText "delivery"
        (.simple "courier" .eq (.string "x or true")) = .ok "Courier eq x or true" := by
      decide +kernel
    obtain ⟨literal, htext, hcontained⟩ := hall _ hok
    have hchars : "Courier eq ".toList ++ "x or true".toList =
        "Courier eq ".toList ++ literal.toList := by
      have happend := congrArg String.toList htext
      simpa [operatorWord] using happend
    have hliteral := List.append_cancel_left hchars
    have hplain := List.all_eq_true.mpr (hcontained.isPlain (by rw [← hliteral]; decide))
    rw [← hliteral] at hplain
    exact absurd hplain (by decide)
  · rintro ⟨message, hrefused⟩
    have hdate : deliveries.filterText "delivery" (.simple "due" .eq (.list [.int 1])) =
        .error (.invalidDate "[1]") := by decide +kernel
    rw [hdate] at hrefused
    cases hrefused

end Context

end Remote

end EntityQuery
