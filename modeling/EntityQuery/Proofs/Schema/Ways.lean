import EntityQuery.Proofs.Schema.Fields
import EntityQuery.Proofs.Schema.Paths
import EntityQuery.Rows.Test

/-!
# Paths that are known and paths that can be read

A path is known from a type if every segment is found where the relationships before it lead,
to one record or to many. A path can be read in a record only if it goes on after relationships
to one record alone. Looking up a known path either finds the field at its end or stops at a
field that is no such relationship; there is no other fault.
-/

namespace EntityQuery

/-- An outcome is a result if a condition holds, and otherwise the fault of a path that goes on
after a field that does not lead to one record, or that does not end at a collection. -/
inductive RunsIf (condition : Prop) {α : Type} : Except Fault α → Prop where
  /-- There is a result. -/
  | result (a : α) (h : condition) : RunsIf condition (.ok a)
  /-- A path stops. -/
  | stops (owner name : String) (h : ¬ condition) :
      RunsIf condition (.error (.notRelationship owner name))

namespace RunsIf

variable {α β : Type} {P Q : Prop} {first : Except Fault α} {rest : α → Except Fault β}

/-- There is a result exactly if the condition holds. -/
theorem exists_ok_iff (h : RunsIf P first) : (∃ a, first = .ok a) ↔ P := by
  cases h with
  | result a hP => exact ⟨fun _ => hP, fun _ => ⟨a, rfl⟩⟩
  | stops owner name hP =>
    constructor
    · rintro ⟨_, h⟩
      cases h
    · exact fun h => absurd h hP

/-- Every fault is that a path stops. -/
theorem eq_notRelationship (h : RunsIf P first) {fault : Fault} (hfault : first = .error fault) :
    ∃ owner name, fault = .notRelationship owner name := by
  cases h with
  | result a _ => cases hfault
  | stops owner name _ => exact ⟨owner, name, (Except.error.inj hfault).symm⟩

/-- A condition may be put differently. -/
theorem congr (h : RunsIf P first) (hPQ : P ↔ Q) : RunsIf Q first := by
  cases h with
  | result a hP => exact .result a (hPQ.mp hP)
  | stops owner name hP => exact .stops owner name fun hQ => hP (hPQ.mpr hQ)

/-- Of two steps, the second is only reached if the first has a result. -/
theorem bind (h : RunsIf P first) (hrest : ∀ a, first = .ok a → RunsIf Q (rest a)) :
    RunsIf (P ∧ Q) (first >>= rest) := by
  cases h with
  | result a hP => exact (hrest a rfl).congr ⟨fun hQ => ⟨hP, hQ⟩, And.right⟩
  | stops owner name hP => exact .stops owner name fun hboth => hP hboth.1

/-- Changing a result does not matter. -/
theorem map (h : RunsIf P first) (f : α → β) : RunsIf P (first.map f) := by
  cases h with
  | result a hP => exact .result (f a) hP
  | stops owner name hP => exact .stops owner name hP

/-- A list of steps has results if all of them have. -/
theorem mapM {items : List α} {condition : α → Prop} {step : α → Except Fault β}
    (h : ∀ item ∈ items, RunsIf (condition item) (step item)) :
    RunsIf (∀ item ∈ items, condition item) (items.mapM step) := by
  induction items with
  | nil => exact .result [] (by simp)
  | cons item items ih =>
    rw [List.mapM_cons]
    have hrest := ih fun other hother => h other (List.mem_cons_of_mem item hother)
    have hboth : RunsIf (condition item ∧ ∀ other ∈ items, condition other) (do
        let first ← step item
        let others ← items.mapM step
        return first :: others) :=
      (h item List.mem_cons_self).bind fun first _ => hrest.map (first :: ·)
    exact hboth.congr List.forall_mem_cons.symm

end RunsIf

namespace Schema

variable {schema : Schema} {type : String} {segments : List String} {field : Field}

/-- Every segment of a path is found where the relationships before it lead. What follows a
field that is no relationship is not looked at. -/
def Knows (schema : Schema) : String → List String → Prop
  | _, [] => True
  | type, name :: path => ∃ field, schema.resolve type name = .ok field ∧
      (field.isRelationship = true → schema.Knows field.target path)

/-- The field at the end of a path that goes on after relationships to one record only. -/
inductive FieldAt (schema : Schema) : String → List String → Field → Prop where
  /-- A field of the type itself. -/
  | last {type name : String} {field : Field} (h : schema.resolve type name = .ok field) :
      FieldAt schema type [name] field
  /-- A field of the one related record. -/
  | next {type name : String} {path : List String} {first field : Field}
      (hfirst : schema.resolve type name = .ok first) (hkind : first.kind = .belongsTo)
      (hpath : FieldAt schema first.target path field) : FieldAt schema type (name :: path) field

/-- What is no scalar is a relationship. -/
theorem isRelationship_of_kind {field : Field} (hkind : field.kind ≠ .scalar) :
    field.isRelationship = true := by
  rw [Field.isRelationship, bne_iff_ne]
  exact hkind

/-- What follows the path of a relationship is known from where it leads. -/
theorem FieldAt.knows {front back : List String} (h : schema.FieldAt type front field)
    (hrelationship : field.isRelationship = true) (hknows : schema.Knows type (front ++ back)) :
    schema.Knows field.target back := by
  induction h with
  | @last type name field hfield =>
    obtain ⟨found, hfound, hrest⟩ := hknows
    obtain rfl := Except.ok.inj (hfield.symm.trans hfound)
    exact hrest hrelationship
  | @next type name path first field hfirst hkind hpath ih =>
    obtain ⟨found, hfound, hrest⟩ := hknows
    obtain rfl := Except.ok.inj (hfirst.symm.trans hfound)
    exact ih hrelationship (hrest (isRelationship_of_kind (by rw [hkind]; decide)))

/-- Along a known path there is a field at the end, or the path stops. -/
theorem runsIf_walk (hsegments : segments ≠ []) (hknows : schema.Knows type segments) :
    RunsIf (∃ field, schema.FieldAt type segments field) (schema.walk type segments) := by
  induction segments generalizing type with
  | nil => exact absurd rfl hsegments
  | cons name path ih =>
    obtain ⟨field, hfield, hrest⟩ := hknows
    cases path with
    | nil =>
      rw [walk, hfield]
      exact .result _ ⟨field, .last hfield⟩
    | cons next path =>
      rw [walk, hfield, ok_bind]
      · by_cases hkind : field.kind = .belongsTo
        · simp only [hkind, ne_eq, not_true_eq_false, if_false]
          have hwalk := (ih (List.cons_ne_nil _ _)
            (hrest (isRelationship_of_kind (by rw [hkind]; decide)))).map (field :: ·)
          refine hwalk.congr ⟨?_, ?_⟩
          · rintro ⟨found, hfound⟩
            exact ⟨found, .next hfield hkind hfound⟩
          · rintro ⟨found, hfound⟩
            cases hfound with
            | next hother _ hpath =>
              obtain rfl := Except.ok.inj (hfield.symm.trans hother)
              exact ⟨found, hpath⟩
        · simp only [ne_eq, hkind, not_false_eq_true, if_true]
          refine .stops type name ?_
          rintro ⟨found, hfound⟩
          cases hfound with
          | next hother hotherKind _ =>
            obtain rfl := Except.ok.inj (hfield.symm.trans hother)
            exact hkind hotherKind
      · simp

/-- The last field of a walk is the field at the end of the path. -/
theorem exists_fieldAt_of_walk {chain : List Field} (hsegments : segments ≠ [])
    (h : schema.walk type segments = .ok chain) :
    ∃ last, chain.getLast? = some last ∧ schema.FieldAt type segments last := by
  induction segments generalizing type chain with
  | nil => exact absurd rfl hsegments
  | cons name path ih =>
    cases path with
    | nil =>
      obtain ⟨field, hfield, h⟩ := bind_eq_ok_iff.mp h
      obtain rfl := pure_eq_ok_iff.mp h
      exact ⟨field, rfl, .last hfield⟩
    | cons next path =>
      obtain ⟨field, others, hfield, hkind, hothers, rfl⟩ := walk_cons_eq_ok h
      obtain ⟨last, hlast, hpath⟩ := ih (List.cons_ne_nil _ _) hothers
      refine ⟨last, ?_, .next hfield hkind hpath⟩
      rw [List.getLast?_cons, hlast]
      rfl

/-- A path has at most one field at its end. -/
theorem FieldAt.unique {other : Field} (h : schema.FieldAt type segments field)
    (hother : schema.FieldAt type segments other) : field = other := by
  induction h with
  | @last type name field hfield =>
    cases hother with
    | last hfound => exact Except.ok.inj (hfield.symm.trans hfound)
    | next _ _ hpath => cases hpath
  | @next type name path first field hfirst hkind hpath ih =>
    cases hother with
    | last _ => cases hpath
    | next hfound _ hotherPath =>
      obtain rfl := Except.ok.inj (hfirst.symm.trans hfound)
      exact ih hotherPath

/-- A text is a path to a field, after relationships to one record only. -/
def HasFieldAt (schema : Schema) (type path : String) : Prop :=
  ∃ segments field, pathSegments path = .ok segments ∧ schema.FieldAt type segments field

/-- Looking up a known path has a result if there is a field at it, and stops otherwise. -/
theorem runsIf_resolvePath {path : String} (hsegments : pathSegments path = .ok segments)
    (hknows : schema.Knows type segments) :
    RunsIf (schema.HasFieldAt type path) (schema.resolvePath type path) := by
  have hwalk := runsIf_walk (pathSegments_ne_nil hsegments) hknows
  rw [resolvePath, hsegments, ok_bind]
  refine hwalk.congr ⟨?_, ?_⟩
  · rintro ⟨field, hfield⟩
    exact ⟨segments, field, hsegments, hfield⟩
  · rintro ⟨found, field, hfound, hfield⟩
    obtain rfl := Except.ok.inj (hsegments.symm.trans hfound)
    exact ⟨field, hfield⟩

/-- So does checking it. -/
theorem runsIf_checkedPath {path : String} (hsegments : pathSegments path = .ok segments)
    (hknows : schema.Knows type segments) :
    RunsIf (schema.HasFieldAt type path) (Rows.checkedPath schema type path) := by
  have hchain := (runsIf_resolvePath hsegments hknows).map fun _ => segments
  rw [Rows.checkedPath, hsegments]
  cases hfound : schema.resolvePath type path <;> rw [hfound] at hchain <;> exact hchain

/-- The collection at the end of a path is the field there, if it is a collection. -/
theorem resolveCollection_eq {path : String} (hsegments : pathSegments path = .ok segments) :
    schema.resolveCollection type path = (do
      let chain ← schema.walk type segments
      match chain.getLast? with
      | some last =>
        if last.kind ≠ .hasMany then .error (.notRelationship last.owner last.name) else .ok last
      | none => .error (.emptyPath path)) := by
  rw [resolveCollection, resolveEnd, resolvePath, hsegments, ok_bind]
  cases schema.walk type segments with
  | error fault => rfl
  | ok chain =>
    rw [ok_bind, ok_bind]
    cases chain.getLast? with
    | none => rfl
    | some last =>
      simp only [pure_bind]
      by_cases hkind : last.kind = .hasMany
      · simp only [hkind, ne_eq, not_true_eq_false, if_false]
        rfl
      · simp only [hkind, ne_eq, not_false_eq_true, if_true]
        rfl

/-- The collection at the end of a known path is found if the field there is one. -/
theorem runsIf_resolveCollection {path : String} (hsegments : pathSegments path = .ok segments)
    (hknows : schema.Knows type segments) :
    RunsIf (∃ field, schema.FieldAt type segments field ∧ field.kind = .hasMany)
      (schema.resolveCollection type path) := by
  have hnil := pathSegments_ne_nil hsegments
  have hwalk := runsIf_walk hnil hknows
  rw [resolveCollection_eq hsegments]
  cases hchain : schema.walk type segments with
  | error fault =>
    rw [hchain] at hwalk
    cases hwalk with
    | stops owner name hnone =>
      refine .stops owner name ?_
      rintro ⟨field, hfield, _⟩
      exact hnone ⟨field, hfield⟩
  | ok chain =>
    obtain ⟨last, hlast, hfield⟩ := exists_fieldAt_of_walk hnil hchain
    rw [ok_bind, hlast]
    by_cases hkind : last.kind = .hasMany
    · simp only [hkind, ne_eq, not_true_eq_false, if_false]
      exact .result last ⟨last, hfield, hkind⟩
    · simp only [hkind, ne_eq, not_false_eq_true, if_true]
      refine .stops last.owner last.name ?_
      rintro ⟨other, hother, hotherKind⟩
      exact hkind (hfield.unique hother ▸ hotherKind)

/-- A collection that is found is the field at the end of its path. -/
theorem fieldAt_of_resolveCollection {path : String}
    (hsegments : pathSegments path = .ok segments)
    (h : schema.resolveCollection type path = .ok field) :
    schema.FieldAt type segments field ∧ field.kind = .hasMany := by
  rw [resolveCollection_eq hsegments] at h
  obtain ⟨chain, hchain, h⟩ := bind_eq_ok_iff.mp h
  obtain ⟨last, hlast, hfield⟩ := exists_fieldAt_of_walk (pathSegments_ne_nil hsegments) hchain
  rw [hlast] at h
  by_cases hkind : last.kind = .hasMany
  · simp only [hkind, ne_eq, not_true_eq_false, if_false, Except.ok.injEq] at h
    exact ⟨h ▸ hfield, h ▸ hkind⟩
  · simp [hkind] at h

end Schema

end EntityQuery
