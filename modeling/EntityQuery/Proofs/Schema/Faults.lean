import EntityQuery.Predicate.Validity
import EntityQuery.Proofs.Schema.Fields
import EntityQuery.Proofs.Schema.Paths
import Mathlib.Data.List.DropRight

/-!
# What a lookup can fail with

Checking a path and cutting it into segments refuse the same paths, although the first looks for
blank pieces and the second for pieces that trimming leaves empty. So looking a checked path up
fails only because the schema does not know a name, or because the path goes on after a field that
does not lead to one record.
-/

namespace EntityQuery

/-- Trimming a text leaves nothing exactly if there was nothing but blanks. -/
theorem Text.isEmpty_trim (text : String) : (trim text).isEmpty = isBlankText text := by
  have htrimmed : trimChars text.toList = (text.toList.dropWhile isBlank).rdropWhile isBlank := rfl
  rw [isBlankText, Bool.eq_iff_iff, String.isEmpty_iff, ← String.toList_inj, trim,
    String.toList_ofList, String.toList_empty, htrimmed, List.rdropWhile_eq_nil_iff,
    List.all_eq_true]
  constructor
  · intro h
    have honlyBlanks : text.toList.dropWhile isBlank = [] := by
      by_contra hne
      exact absurd (h _ (List.head_mem hne)) (by simpa using List.head_dropWhile_not isBlank hne)
    exact List.dropWhile_eq_nil_iff.mp honlyBlanks
  · intro h c hc
    exact h c ((List.dropWhile_sublist isBlank).mem hc)

/-- A path passes its check exactly if it has segments. -/
theorem Predicate.checkPath_eq_ok_iff {path : String} :
    checkPath path = .ok () ↔ ∃ segments, Schema.pathSegments path = .ok segments := by
  have hblank : (Text.pieces '.' path).any Text.isBlankText =
      ((Text.pieces '.' path).map Text.trim).any String.isEmpty := by
    rw [List.any_map]
    exact congrArg _ (funext fun piece => (Text.isEmpty_trim piece).symm)
  constructor
  · intro h
    cases hpieces : (Text.pieces '.' path).any Text.isBlankText with
    | true => simp [checkPath, hpieces] at h
    | false => exact ⟨_, Schema.pathSegments_eq_ok_iff.mpr ⟨hblank ▸ hpieces, rfl⟩⟩
  · rintro ⟨segments, hsegments⟩
    have hfull := (Schema.pathSegments_eq_ok_iff.mp hsegments).1
    rw [checkPath, Schema.isEmpty_eq_false_of_pathSegments hsegments, hblank, hfull]
    rfl

/-- Faults of a lookup: a type or a field that the schema does not know, and a path that goes on
after a field that leads nowhere, or to many records. -/
def Fault.endsLookup : Fault → Bool
  | unknownModel _ | unknownProperty _ _ | notRelationship _ _ => true
  | _ => false

namespace Schema

variable {schema : Schema}

/-- A search ends at a type that is missing, or as it does when the lineage is exhausted. -/
theorem failsOnly_conclude {α : Type} {lineage : Lineage} {found : Option α}
    {exhausted : Except Fault α} (h : FailsOnly (·.endsLookup = true) exhausted) :
    FailsOnly (·.endsLookup = true) (lineage.conclude found exhausted) := by
  unfold Lineage.conclude
  cases found with
  | some a => exact .result
  | none =>
    cases lineage.missing with
    | some name => exact .fault rfl
    | none => exact h

/-- Looking a key up fails only as lookups do. -/
theorem failsOnly_key (schema : Schema) (type : String) :
    FailsOnly (·.endsLookup = true) (schema.key type) :=
  failsOnly_conclude .result

/-- Looking a name up fails only as lookups do. -/
theorem failsOnly_resolve (schema : Schema) (type name : String) :
    FailsOnly (·.endsLookup = true) (schema.resolve type name) := by
  rw [resolve]
  by_cases hname : name = identityField
  · rw [if_pos hname]
    exact failsOnly_key schema type
  · rw [if_neg hname]
    exact failsOnly_conclude (.fault rfl)

/-- Looking segments up fails only as lookups do. -/
theorem failsOnly_walk (schema : Schema) (type : String) (segments : List String) :
    FailsOnly (·.endsLookup = true) (schema.walk type segments) := by
  induction segments generalizing type with
  | nil => exact .result
  | cons segment rest ih =>
    cases rest with
    | nil => exact (failsOnly_resolve schema type segment).bind fun field _ => .result
    | cons next rest =>
      refine (failsOnly_resolve schema type segment).bind fun field _ => ?_
      by_cases hkind : field.kind = .belongsTo
      · simp only [hkind, ne_eq, not_true_eq_false, if_false]
        exact (ih field.target).bind fun others _ => .result
      · simp only [hkind, ne_eq, not_false_eq_true, if_true]
        exact .fault rfl

variable {type path : String}

/-- Looking a checked path up fails only as lookups do. -/
theorem failsOnly_resolvePath (hpath : Predicate.checkPath path = .ok ()) :
    FailsOnly (·.endsLookup = true) (schema.resolvePath type path) := by
  obtain ⟨segments, hsegments⟩ := Predicate.checkPath_eq_ok_iff.mp hpath
  rw [resolvePath, hsegments]
  exact failsOnly_walk schema type segments

/-- Looking up the end of a checked path fails only as lookups do. -/
theorem failsOnly_resolveEnd (hpath : Predicate.checkPath path = .ok ()) :
    FailsOnly (·.endsLookup = true) (schema.resolveEnd type path) := by
  refine (failsOnly_resolvePath hpath).bind fun chain hchain => ?_
  obtain ⟨segments, hsegments, hwalk⟩ := bind_eq_ok_iff.mp hchain
  have hne : chain ≠ [] := by
    rw [← List.length_pos_iff, length_walk hwalk, List.length_pos_iff]
    exact pathSegments_ne_nil hsegments
  rw [List.getLast?_eq_getLast_of_ne_nil hne]
  exact .result

/-- Looking up the collection at the end of a checked path fails only as lookups do. -/
theorem failsOnly_resolveCollection (hpath : Predicate.checkPath path = .ok ()) :
    FailsOnly (·.endsLookup = true) (schema.resolveCollection type path) := by
  refine (failsOnly_resolveEnd hpath).bind fun ⟨chain, last⟩ _ => ?_
  by_cases hkind : last.kind = .hasMany
  · simp only [hkind, ne_eq, not_true_eq_false, if_false]
    exact .result
  · simp only [hkind, ne_eq, not_false_eq_true, if_true]
    exact .fault rfl

end Schema

end EntityQuery
