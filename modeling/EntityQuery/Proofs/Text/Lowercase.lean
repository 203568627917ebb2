import EntityQuery.Text.Lowercase
import EntityQuery.Text.Search
import Mathlib.Data.List.Infix
import Mathlib.Tactic.Common

/-!
# The lower case of a part of a text

Lower case is written character by character, and only the capital sigma looks at what stands
around it. So the lower case of a text has at the place of a part the lower case of that part
exactly if every capital sigma of the part is at the end of a word in the text when it is so in
the part alone, and conversely.
-/

namespace EntityQuery.Text

/-- The capital sigma, the one letter whose small form depends on its place. -/
def capitalSigma : Char := Char.ofNat 0x3a3

/-- The lower case that a part of a text has in it, given the characters before the part, in
reverse, and the ones after it. -/
def lowercaseWithin (before : List Char) : List Char → List Char → List Char
  | [], _ => []
  | c :: cs, after =>
    lowercaseImage before c (cs ++ after) ++ lowercaseWithin (c :: before) cs after

/-- The lower case of a text is put together from that of its parts. -/
theorem lowercaseFrom_append (before cs after : List Char) :
    lowercaseFrom before (cs ++ after) =
      lowercaseWithin before cs after ++ lowercaseFrom (cs.reverse ++ before) after := by
  induction cs generalizing before with
  | nil => rfl
  | cons c cs ih =>
    rw [List.cons_append, lowercaseFrom, ih, lowercaseWithin, List.append_assoc,
      List.reverse_cons, List.append_assoc]
    rfl

/-- A text is the only part of itself. -/
theorem lowercaseWithin_nil (before cs : List Char) :
    lowercaseWithin before cs [] = lowercaseFrom before cs := by
  have h := lowercaseFrom_append before cs []
  rwa [List.append_nil, lowercaseFrom, List.append_nil, eq_comm] at h

/-- How many characters there are in the lower case of a character does not depend on its place. -/
theorem length_lowercaseImage (before before' : List Char) (c : Char) (after after' : List Char) :
    (lowercaseImage before c after).length = (lowercaseImage before' c after').length := by
  unfold lowercaseImage
  split_ifs <;> rfl

/-- Only the lower case of a capital sigma depends on its place, and only on whether it is at the
end of a word. -/
theorem lowercaseImage_eq_iff {before before' : List Char} {c : Char} {after after' : List Char} :
    lowercaseImage before c after = lowercaseImage before' c after' ↔
      (c = capitalSigma → endsWord before after = endsWord before' after') := by
  by_cases hsigma : c = capitalSigma
  · subst hsigma
    have hcode : capitalSigma.toNat = 0x3a3 := by decide
    simp only [lowercaseImage, hcode, if_true, forall_const]
    cases endsWord before after <;> cases endsWord before' after' <;> decide
  · have hcode : c.toNat ≠ 0x3a3 := fun h => hsigma (Char.toNat_inj.mp h)
    simp [lowercaseImage, hcode, hsigma]

/-- A part has the same lower case at two places exactly if each of its capital sigmas is at the
end of a word at both places or at none. -/
theorem lowercaseWithin_eq_iff {before before' cs after after' : List Char} :
    lowercaseWithin before cs after = lowercaseWithin before' cs after' ↔
      ∀ head tail, cs = head ++ capitalSigma :: tail →
        endsWord (head.reverse ++ before) (tail ++ after) =
          endsWord (head.reverse ++ before') (tail ++ after') := by
  induction cs generalizing before before' with
  | nil => simp [lowercaseWithin]
  | cons c cs ih =>
    have hparts : lowercaseWithin before (c :: cs) after =
          lowercaseWithin before' (c :: cs) after' ↔
        lowercaseImage before c (cs ++ after) = lowercaseImage before' c (cs ++ after') ∧
          lowercaseWithin (c :: before) cs after = lowercaseWithin (c :: before') cs after' := by
      constructor
      · exact fun h => List.append_inj h (length_lowercaseImage ..)
      · rintro ⟨himage, hrest⟩
        rw [lowercaseWithin, lowercaseWithin, himage, hrest]
    rw [hparts, lowercaseImage_eq_iff, ih]
    constructor
    · rintro ⟨hfirst, hrest⟩ head tail heq
      cases head with
      | nil =>
        obtain ⟨rfl, rfl⟩ := List.cons.inj heq
        exact hfirst rfl
      | cons d head =>
        obtain ⟨rfl, rfl⟩ := List.cons.inj heq
        simpa using hrest head tail rfl
    · intro h
      refine ⟨?_, fun head tail heq => ?_⟩
      · rintro rfl
        exact h [] cs rfl
      · simpa using h (c :: head) tail (by rw [heq, List.cons_append])

/-- Every capital sigma of a part of a text is at the end of a word in the text exactly if it is
so in the part alone. -/
def KeepsSigmas (front part back : List Char) : Prop :=
  ∀ head tail, part = head ++ capitalSigma :: tail →
    endsWord (head.reverse ++ front.reverse) (tail ++ back) = endsWord head.reverse tail

/-- The lower case of a text has at the place of a part the lower case of that part exactly if
the part keeps its sigmas there. -/
theorem lowercaseWithin_eq_lowercase_iff {front back : List Char} {part : String} :
    lowercaseWithin front.reverse part.toList back = (lowercase part).toList ↔
      KeepsSigmas front part.toList back := by
  rw [lowercase, String.toList_ofList, ← lowercaseWithin_nil, lowercaseWithin_eq_iff]
  simp only [KeepsSigmas, List.append_nil]

/-- A sequence of characters is found exactly where it stands within another one. -/
theorem occursIn_iff_infix {needle text : List Char} :
    occursIn needle text = true ↔ needle <:+: text := by
  induction text with
  | nil => simp [occursIn, List.isEmpty_iff]
  | cons c text ih => simp [occursIn, ih, List.infix_cons_iff]

/-- A part that keeps its sigmas is found in the lower case of a text. -/
theorem isWithin_lowercase {text part : String} {front back : List Char}
    (hplace : text.toList = front ++ part.toList ++ back)
    (hsigmas : KeepsSigmas front part.toList back) :
    isWithin (lowercase part) (lowercase text) = true := by
  have htext : (lowercase text).toList =
      lowercaseWithin [] front (part.toList ++ back) ++
        (lowercase part).toList ++
          lowercaseFrom (part.toList.reverse ++ front.reverse) back := by
    rw [← lowercaseWithin_eq_lowercase_iff.mpr hsigmas, lowercase, String.toList_ofList, hplace,
      List.append_assoc, lowercaseFrom_append, List.append_nil, lowercaseFrom_append,
      List.append_assoc]
  rw [isWithin, occursIn_iff_infix, htext]
  exact List.infix_append _ _ _

end EntityQuery.Text
