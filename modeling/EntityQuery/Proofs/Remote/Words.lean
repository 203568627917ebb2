import EntityQuery.Proofs.Decimal.Reading
import EntityQuery.Text.Blank
import Mathlib.Tactic.Common

/-!
# Words of a filter

A filter is read word by word. Blanks, commas, quotes and parentheses end a word, and
three words join or negate what stands between them. A number, however it is spelled, is
one word that does neither.
-/

namespace EntityQuery.Remote

/-- A character that ends no word. -/
def isPlain (c : Char) : Bool :=
  !Text.isBlank c && c != '\'' && c != '(' && c != ')' && c != ','

/-- A blank ends a word. -/
theorem isBlank_of_isPlain {c : Char} (h : isPlain c = true) : Text.isBlank c = false := by
  simp only [isPlain, Bool.and_eq_true, Bool.not_eq_true'] at h
  exact h.1.1.1.1

/-- The words that join or negate comparisons. -/
def reservedWords : List String := ["and", "or", "not"]

/-- A text that stands in a filter as one word and neither joins nor negates. -/
structure IsWord (text : String) : Prop where
  /-- It is not empty. -/
  nonempty : text.toList ≠ []
  /-- Nothing in it ends the word. -/
  plain : ∀ c ∈ text.toList, isPlain c = true
  /-- It is not reserved. -/
  free : text ∉ reservedWords

instance (text : String) : Decidable (IsWord text) :=
  decidable_of_iff
    (text.toList.isEmpty = false ∧ text.toList.all isPlain = true ∧
      reservedWords.contains text = false)
    ⟨fun ⟨hnonempty, hplain, hfree⟩ =>
      ⟨by simpa using hnonempty, List.all_eq_true.mp hplain, by simpa using hfree⟩,
      fun ⟨hnonempty, hplain, hfree⟩ =>
      ⟨by simpa using hnonempty, List.all_eq_true.mpr hplain, by simpa using hfree⟩⟩

/-- Digits end no word. -/
theorem isPlain_of_isDigit {c : Char} (h : c.isDigit = true) : isPlain c = true := by
  have hrange : 48 ≤ c.toNat ∧ c.toNat ≤ 57 := by
    simpa [Char.isDigit, UInt32.le_iff_toNat_le] using h
  have hblank : Text.isBlank c = false := by
    simp only [Text.isBlank, Bool.or_eq_false_iff, Bool.and_eq_false_iff, decide_eq_false_iff_not,
      beq_eq_false_iff_ne]
    omega
  have hne : ∀ other : Char, other.toNat < 48 → c ≠ other := by
    intro other hother heq
    rw [heq] at hrange
    omega
  simp only [isPlain, hblank, Bool.not_false, Bool.true_and, Bool.and_eq_true, bne_iff_ne]
  exact ⟨⟨⟨hne _ (by decide), hne _ (by decide)⟩, hne _ (by decide)⟩, hne _ (by decide)⟩

/-- A plain text is a word if no reserved word has some character of it. -/
theorem isWord_of_mem {text : String} {c : Char} (hplain : ∀ c ∈ text.toList, isPlain c = true)
    (hmem : c ∈ text.toList) (hfree : ∀ word ∈ reservedWords, c ∉ word.toList) :
    IsWord text where
  nonempty := List.ne_nil_of_mem hmem
  plain := hplain
  free := fun h => hfree text h hmem

/-- No reserved word has a digit. -/
theorem not_mem_reserved_of_isDigit {c : Char} (h : c.isDigit = true) :
    ∀ word ∈ reservedWords, c ∉ word.toList := by
  have hletters : reservedWords.all (fun word => !word.toList.any Char.isDigit) = true := by
    decide
  intro word hword hc
  have hnone := List.all_eq_true.mp hletters word hword
  rw [List.any_eq_true.mpr ⟨c, hc, h⟩] at hnone
  cases hnone

/-- A numeral is its digits and a few signs around them. -/
def isNumeric (c : Char) : Bool :=
  c.isDigit || c == '.' || c == '+' || c == '-' || c == 'e' || c == 'E'

theorem isPlain_of_isNumeric {c : Char} (h : isNumeric c = true) : isPlain c = true := by
  simp only [isNumeric, Bool.or_eq_true, beq_iff_eq] at h
  rcases h with ((((hdigit | rfl) | rfl) | rfl) | rfl) | rfl
  · exact isPlain_of_isDigit hdigit
  all_goals decide

/-- A text of a numeral with a digit in it. -/
def IsNumeralText (cs : List Char) : Prop :=
  (∀ c ∈ cs, isNumeric c = true) ∧ ∃ c ∈ cs, c.isDigit = true

/-- The text of a numeral is one word. -/
theorem IsNumeralText.isWord {text : String} (h : IsNumeralText text.toList) : IsWord text := by
  obtain ⟨hnumeric, digit, hmem, hdigit⟩ := h
  exact isWord_of_mem (fun c hc => isPlain_of_isNumeric (hnumeric c hc)) hmem
    (not_mem_reserved_of_isDigit hdigit)

/-- Digits alone are the text of a numeral. -/
theorem isNumeralText_of_digits {cs : List Char} (hne : cs ≠ [])
    (h : ∀ c ∈ cs, c.isDigit = true) : IsNumeralText cs := by
  obtain ⟨c, hc⟩ := List.exists_mem_of_ne_nil cs hne
  refine ⟨fun c hc => ?_, c, hc, h c hc⟩
  simp [isNumeric, h c hc]

/-- Numeric characters may stand before the text of a numeral. -/
theorem IsNumeralText.append_left {front cs : List Char} (h : IsNumeralText cs)
    (hfront : ∀ c ∈ front, isNumeric c = true) : IsNumeralText (front ++ cs) := by
  obtain ⟨hnumeric, digit, hmem, hdigit⟩ := h
  refine ⟨fun c hc => ?_, digit, List.mem_append_right _ hmem, hdigit⟩
  exact (List.mem_append.mp hc).elim (hfront c) (hnumeric c)

/-- Numeric characters may stand behind the text of a numeral. -/
theorem IsNumeralText.append_right {cs back : List Char} (h : IsNumeralText cs)
    (hback : ∀ c ∈ back, isNumeric c = true) : IsNumeralText (cs ++ back) := by
  obtain ⟨hnumeric, digit, hmem, hdigit⟩ := h
  refine ⟨fun c hc => ?_, digit, List.mem_append_left _ hmem, hdigit⟩
  exact (List.mem_append.mp hc).elim (hnumeric c) (hback c)

/-- The digits of a natural number are the text of a numeral. -/
theorem isNumeralText_digitsOf (n : Nat) : IsNumeralText (Decimal.digitsOf n) :=
  isNumeralText_of_digits Nat.toDigits_ne_nil fun _ hc =>
    Nat.isDigit_of_mem_toDigits (by decide) (by decide) hc

/-- A whole number is one word. -/
theorem isWord_toString_int (n : Int) : IsWord (toString n) := by
  apply IsNumeralText.isWord
  cases n with
  | ofNat m =>
    rw [Decimal.toList_toString_ofNat]
    exact isNumeralText_digitsOf m
  | negSucc m =>
    rw [Decimal.toList_toString_negSucc]
    have hsign : ∀ c ∈ ['-'], isNumeric c = true := List.all_eq_true.mp (by decide)
    exact (isNumeralText_digitsOf (m + 1)).append_left hsign

theorem isNumeric_of_isDigit {c : Char} (h : c.isDigit = true) : isNumeric c = true := by
  simp [isNumeric, h]

/-- Digits with the point at its place are the text of a numeral. -/
theorem isNumeralText_positionalText {keepsPoint : Bool} {digits : List Char} (exponent : Int)
    (hne : digits ≠ []) (h : ∀ c ∈ digits, c.isDigit = true) :
    IsNumeralText (Decimal.positionalText keepsPoint digits exponent) := by
  have hdigits := isNumeralText_of_digits hne h
  have hzeros : ∀ n, ∀ c ∈ Decimal.zeros n, isNumeric c = true :=
    fun n c hc => isNumeric_of_isDigit (Decimal.isDigit_of_mem_zeros hc)
  unfold Decimal.positionalText
  by_cases hexponent : 0 ≤ exponent
  · rw [if_pos hexponent]
    refine (hdigits.append_right (hzeros _)).append_right ?_
    cases keepsPoint <;> exact List.all_eq_true.mp (by decide)
  · simp only [if_neg hexponent]
    by_cases hplaces : (-exponent).toNat < digits.length
    · rw [if_pos hplaces]
      have hsomeBehind : digits.drop (digits.length - (-exponent).toNat) ≠ [] := by
        rw [ne_eq, List.drop_eq_nil_iff]
        omega
      have hback := isNumeralText_of_digits hsomeBehind fun c hc => h c (List.mem_of_mem_drop hc)
      have hpoint : IsNumeralText (['.'] ++ digits.drop (digits.length - (-exponent).toNat)) :=
        hback.append_left (List.all_eq_true.mp (by decide))
      exact hpoint.append_left fun c hc => isNumeric_of_isDigit (h c (List.mem_of_mem_take hc))
    · rw [if_neg hplaces]
      refine hdigits.append_left fun c hc => ?_
      rcases List.mem_cons.mp hc with rfl | hc
      · decide
      · rcases List.mem_cons.mp hc with rfl | hc
        · decide
        · exact hzeros _ c hc

/-- A double is one word. -/
theorem isWord_float (x : Float) : IsWord (Decimal.FloatFormat.plain.text x) := by
  have hsigned : ∀ (negative : Bool) {cs : List Char}, IsNumeralText cs →
      IsWord ((if negative then "-" else "") ++ String.ofList cs) := by
    intro negative cs h
    apply IsNumeralText.isWord
    rw [String.toList_append, String.toList_ofList]
    refine h.append_left ?_
    cases negative <;> exact List.all_eq_true.mp (by decide)
  unfold Decimal.FloatFormat.text
  cases Decimal.binary64 x with
  | nan => decide
  | infinite negative => cases negative <;> decide
  | finite negative mantissa exponent =>
    by_cases hzero : mantissa = 0
    · simp only [hzero, if_true]
      exact hsigned negative (isNumeralText_positionalText 0 (by decide)
        (List.all_eq_true.mp (by decide)))
    · simp only [hzero, if_false]
      refine hsigned negative (isNumeralText_positionalText _ Nat.toDigits_ne_nil fun c hc => ?_)
      exact Nat.isDigit_of_mem_toDigits (by decide) (by decide) hc

/-- Dropping a sign drops nothing but a sign. -/
theorem exists_sign (cs : List Char) :
    ∃ sign : List Char, (∀ c ∈ sign, isNumeric c = true) ∧ cs = sign ++ Decimal.dropSign cs := by
  unfold Decimal.dropSign
  split
  · exact ⟨['+'], List.all_eq_true.mp (by decide), rfl⟩
  · exact ⟨['-'], List.all_eq_true.mp (by decide), rfl⟩
  · exact ⟨[], by simp, rfl⟩

/-- The power of ten that ends a numeral is numeric. -/
theorem isNumeric_of_readExponent? {cs : List Char} {power : Int}
    (h : Decimal.readExponent? cs = some power) : ∀ c ∈ cs, isNumeric c = true := by
  cases cs with
  | nil => simp
  | cons letter rest =>
    simp only [Decimal.readExponent?] at h
    by_cases hletter : letter = 'e' ∨ letter = 'E'
    · rw [if_pos hletter] at h
      by_cases hdigits : ((Decimal.dropSign rest).isEmpty ||
          !(Decimal.dropSign rest).all Char.isDigit) = true
      · rw [if_pos hdigits] at h
        cases h
      · obtain ⟨_, hall⟩ := Bool.or_eq_false_iff.mp (Bool.eq_false_iff.mpr hdigits)
        obtain ⟨sign, hsign, hrest⟩ := exists_sign rest
        intro c hc
        rcases List.mem_cons.mp hc with rfl | hc
        · rcases hletter with rfl | rfl <;> decide
        · rw [hrest] at hc
          refine (List.mem_append.mp hc).elim (hsign c) fun hc => isNumeric_of_isDigit ?_
          exact List.all_eq_true.mp (by simpa using hall) c hc
    · rw [if_neg hletter] at h
      cases h

/-- Digits around a point are the text of a numeral if there are any. -/
theorem isNumeralText_of_parts {sign whole point fraction ending : List Char}
    (hsign : ∀ c ∈ sign, isNumeric c = true) (hwhole : ∀ c ∈ whole, c.isDigit = true)
    (hpoint : ∀ c ∈ point, isNumeric c = true) (hfraction : ∀ c ∈ fraction, c.isDigit = true)
    (hending : ∀ c ∈ ending, isNumeric c = true)
    (hne : (whole.isEmpty && fraction.isEmpty) = false) :
    IsNumeralText (sign ++ (whole ++ (point ++ (fraction ++ ending)))) := by
  have hnumeric : ∀ {digits : List Char}, (∀ c ∈ digits, c.isDigit = true) →
      ∀ c ∈ digits, isNumeric c = true := fun h c hc => isNumeric_of_isDigit (h c hc)
  by_cases hnil : fraction = []
  · subst hnil
    have hsome : whole ≠ [] := by simpa using hne
    refine IsNumeralText.append_left ?_ hsign
    refine (isNumeralText_of_digits hsome hwhole).append_right fun c hc => ?_
    exact (List.mem_append.mp hc).elim (hpoint c) (hending c)
  · have hback := (isNumeralText_of_digits hnil hfraction).append_right hending
    exact ((hback.append_left hpoint).append_left (hnumeric hwhole)).append_left hsign

/-- What reads as a numeral is the text of one. -/
theorem isNumeralText_of_read? {cs : List Char} {numeral : Decimal.Numeral}
    (h : Decimal.Numeral.read? cs = some numeral) : IsNumeralText cs := by
  obtain ⟨sign, hsign, hcs⟩ := exists_sign cs
  simp only [Decimal.Numeral.read?] at h
  generalize hunsigned : Decimal.dropSign cs = unsigned at h hcs
  have hsplit := List.takeWhile_append_dropWhile (p := Char.isDigit) (l := unsigned)
  have hwhole : ∀ c ∈ unsigned.takeWhile Char.isDigit, c.isDigit = true :=
    fun c hc => List.mem_takeWhile_imp hc
  generalize unsigned.takeWhile Char.isDigit = whole at h hsplit hwhole
  generalize unsigned.dropWhile Char.isDigit = rest at h hsplit
  rw [hcs, ← hsplit]
  by_cases hpoint : rest.head? = some '.'
  · obtain ⟨tail, rfl⟩ : ∃ tail, rest = '.' :: tail := by
      cases rest with
      | nil => cases hpoint
      | cons head tail => exact ⟨tail, by rw [Option.some.inj hpoint]⟩
    simp only [List.head?_cons, if_true, List.drop_one, List.tail_cons] at h
    have htail := List.takeWhile_append_dropWhile (p := Char.isDigit) (l := tail)
    have hfraction : ∀ c ∈ tail.takeWhile Char.isDigit, c.isDigit = true :=
      fun c hc => List.mem_takeWhile_imp hc
    cases hne : whole.isEmpty && (tail.takeWhile Char.isDigit).isEmpty with
    | true => simp [hne] at h
    | false =>
      simp only [hne, Bool.false_eq_true, if_false] at h
      obtain ⟨power, hpower, _⟩ := Option.map_eq_some_iff.mp h
      have hparts : IsNumeralText (sign ++ (whole ++ (['.'] ++
          (tail.takeWhile Char.isDigit ++ tail.dropWhile Char.isDigit)))) :=
        isNumeralText_of_parts hsign hwhole (List.all_eq_true.mp (by decide)) hfraction
          (isNumeric_of_readExponent? hpower) hne
      rw [htail] at hparts
      exact hparts
  · simp only [if_neg hpoint] at h
    cases hne : whole.isEmpty && ([] : List Char).isEmpty with
    | true =>
      rw [if_pos hne] at h
      cases h
    | false =>
      rw [if_neg (Bool.eq_false_iff.mp hne)] at h
      obtain ⟨power, hpower, _⟩ := Option.map_eq_some_iff.mp h
      have hparts : IsNumeralText (sign ++ (whole ++ ([] ++ ([] ++ rest)))) :=
        isNumeralText_of_parts hsign hwhole (by simp) (by simp)
          (isNumeric_of_readExponent? hpower) hne
      exact hparts

/-- A text that spells a finite number is one word. -/
theorem isWord_of_isFiniteNumber {text : String} (h : Decimal.isFiniteNumber text = true) :
    IsWord text := by
  apply IsNumeralText.isWord
  unfold Decimal.isFiniteNumber at h
  cases hread : Decimal.Numeral.read? text.toList with
  | none => simp [hread] at h
  | some numeral => exact isNumeralText_of_read? hread

end EntityQuery.Remote
