import EntityQuery.Proofs.Query.Construction
import EntityQuery.Proofs.Rows.Chains
import EntityQuery.Proofs.Text.Lowercase
import Mathlib.Data.List.Basic

/-!
# Searching for a part of a text

A text is searched in lower case for the lower case of what is looked for. A part that stands in
the text is found, wherever it stands, unless a capital sigma of it is at the end of a word in one
of the two texts and not in the other: then the lower case of the text has another sigma there.
-/

namespace EntityQuery.Rows

open Text

/-- A record whose value along a path is a text matches every part of that text that keeps its
sigmas there, as a part without capital sigmas does everywhere. The condition is exact: at the
place of a part, the lower case of the text is that of the part exactly if the part keeps its
sigmas. -/
theorem literal_part_matches {schema : Schema} {type path needle value : String}
    {segments : List String} {style : DateStyle} {record : Record} {front back : List Char}
    (hpath : checkedPath schema type path = .ok segments)
    (hvalue : record.read segments = .string value)
    (hplace : value.toList = front ++ needle.toList ++ back) :
    (KeepsSigmas front needle.toList back →
      (Predicate.contains path needle).Matches schema type style record) ∧
    (lowercaseWithin front.reverse needle.toList back = (lowercase needle).toList ↔
      KeepsSigmas front needle.toList back) := by
  refine ⟨fun hsigmas => ?_, lowercaseWithin_eq_lowercase_iff⟩
  have htest : Test.ofPredicate schema (.contains path needle) type =
      .ok (.contains segments (lowercase needle)) := by
    rw [Test.ofPredicate, hpath]
    rfl
  have hpasses : (Test.contains segments (lowercase needle)).passes style record =
      isWithin (lowercase needle) (lowercase value) := by
    rw [Test.passes, hvalue]
    rfl
  exact ⟨_, htest, hpasses.trans (isWithin_lowercase hplace hsigmas)⟩

/-- An employee with a name. -/
def named (name : String) : Record := [("name", .string name)]

theorem literal_part_matches_last_word :
    let front := "ΟΔΟΣ ".toList
    checkedPath Sample.schema "employee" "name" = .ok ["name"] ∧
      (named "ΟΔΟΣ ΑΘΗΝΑΣ").read ["name"] = .string "ΟΔΟΣ ΑΘΗΝΑΣ" ∧
      "ΟΔΟΣ ΑΘΗΝΑΣ".toList = front ++ "ΑΘΗΝΑΣ".toList ++ [] ∧
      KeepsSigmas front "ΑΘΗΝΑΣ".toList [] ∧
      (Predicate.contains "name" "ΑΘΗΝΑΣ").Matches Sample.schema "employee" .standard
        (named "ΟΔΟΣ ΑΘΗΝΑΣ") := by
  intro front
  have hpath : checkedPath Sample.schema "employee" "name" = .ok ["name"] := by decide +kernel
  have hplace : "ΟΔΟΣ ΑΘΗΝΑΣ".toList = front ++ "ΑΘΗΝΑΣ".toList ++ [] := by decide +kernel
  have hsigmas : KeepsSigmas front "ΑΘΗΝΑΣ".toList [] := by
    intro head tail hsplit
    have hlast : "ΑΘΗΝΑΣ".toList = "ΑΘΗΝΑ".toList ++ capitalSigma :: [] := by decide +kernel
    rw [hlast] at hsplit
    obtain ⟨rfl, _, rfl⟩ :=
      (List.append_cons_inj_of_notMem (by decide +kernel) (by decide)).mp hsplit
    decide +kernel
  exact ⟨hpath, rfl, hplace, hsigmas, (literal_part_matches hpath rfl hplace).1 hsigmas⟩

/-- The first four letters of a word end a word alone and not in it, so they are not found. -/
theorem not_matches_first_letters :
    checkedPath Sample.schema "employee" "name" = .ok ["name"] ∧
      (named "ΟΔΟΣΗΜΑΝΣΗ").read ["name"] = .string "ΟΔΟΣΗΜΑΝΣΗ" ∧
      "ΟΔΟΣΗΜΑΝΣΗ".toList = [] ++ "ΟΔΟΣ".toList ++ "ΗΜΑΝΣΗ".toList ∧
      ¬(Predicate.contains "name" "ΟΔΟΣ").Matches Sample.schema "employee" .standard
        (named "ΟΔΟΣΗΜΑΝΣΗ") := by
  refine ⟨by decide +kernel, rfl, by decide +kernel, ?_⟩
  have htest : Test.ofPredicate Sample.schema (.contains "name" "ΟΔΟΣ") "employee" =
      .ok (.contains ["name"] (lowercase "ΟΔΟΣ")) := rfl
  rw [Predicate.matches_iff_passes htest]
  decide +kernel

end EntityQuery.Rows
