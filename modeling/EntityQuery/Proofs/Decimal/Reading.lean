import EntityQuery.Decimal.Format
import EntityQuery.Decimal.Numeral
import Mathlib.Algebra.Order.Field.Power
import Mathlib.Data.List.TakeWhile
import Mathlib.Tactic.Ring

/-!
# Written numbers read back

A text that reads as a numeral denotes a quantity. Whole numbers are written so that they
denote themselves, and a decimal that is written without an exponent denotes itself wherever
its point stands.
-/

namespace EntityQuery.Decimal

/-- The quantity that a numeral denotes, up to its sign. -/
def Numeral.quantity (numeral : Numeral) : ℚ := numeral.digits * 10 ^ numeral.exponent

/-- The quantity that a text denotes, if it reads as a numeral. -/
def quantity? (text : List Char) : Option ℚ :=
  (Numeral.read? text).map fun numeral =>
    if text.head? = some '-' then -numeral.quantity else numeral.quantity

variable {cs digits whole fraction : List Char}

theorem spelled_eq_ofDigitChars (digits : List Char) :
    spelled digits = Nat.ofDigitChars 10 digits 0 :=
  Nat.ofDigitChars_eq_foldl.symm

/-- Digits that are written for a number spell it. -/
theorem spelled_digitsOf (n : Nat) : spelled (digitsOf n) = n := by
  rw [spelled_eq_ofDigitChars]
  exact Nat.ofDigitChars_ten_toDigits

/-- Zeros behind digits make them worth more. -/
theorem spelled_append_zeros (digits : List Char) (n : Nat) :
    spelled (digits ++ zeros n) = spelled digits * 10 ^ n := by
  rw [spelled_eq_ofDigitChars, Nat.ofDigitChars_append, zeros, Nat.ofDigitChars_replicate_zero,
    spelled_eq_ofDigitChars, Nat.mul_comm]

/-- Zeros before digits make no difference. -/
theorem spelled_zeros_append (digits : List Char) (n : Nat) :
    spelled (zeros n ++ digits) = spelled digits := by
  rw [spelled_eq_ofDigitChars, Nat.ofDigitChars_append, zeros, Nat.ofDigitChars_replicate_zero,
    Nat.mul_zero, spelled_eq_ofDigitChars]

/-- The text begins with a digit. -/
def StartsWithDigit (text : List Char) : Prop := ∃ c cs, text = c :: cs ∧ c.isDigit = true

theorem StartsWithDigit.append (h : StartsWithDigit digits) (cs : List Char) :
    StartsWithDigit (digits ++ cs) := by
  obtain ⟨c, rest, rfl, hdigit⟩ := h
  exact ⟨c, rest ++ cs, rfl, hdigit⟩

theorem startsWithDigit_of_all (hne : digits ≠ []) (h : ∀ c ∈ digits, c.isDigit = true) :
    StartsWithDigit digits := by
  cases digits with
  | nil => exact absurd rfl hne
  | cons c cs => exact ⟨c, cs, rfl, h c List.mem_cons_self⟩

/-- A text that begins with a digit has no sign to drop. -/
theorem dropSign_of_startsWithDigit (h : StartsWithDigit cs) : dropSign cs = cs := by
  obtain ⟨c, rest, rfl, hdigit⟩ := h
  unfold dropSign
  split
  · next heq => cases heq; cases hdigit
  · next heq => cases heq; cases hdigit
  · rfl

/-- Nor does it denote the opposite of a quantity. -/
theorem quantity?_of_startsWithDigit (h : StartsWithDigit cs) :
    quantity? cs = (Numeral.read? cs).map Numeral.quantity := by
  obtain ⟨c, rest, rfl, hdigit⟩ := h
  have hminus : (c :: rest).head? ≠ some '-' := by
    intro heq
    cases heq
    cases hdigit
  simp only [quantity?, if_neg hminus]

/-- With a minus before it, it does. -/
theorem quantity?_minus (h : StartsWithDigit cs) :
    quantity? ('-' :: cs) = (quantity? cs).map Neg.neg := by
  have hread : Numeral.read? ('-' :: cs) = Numeral.read? cs := by
    rw [Numeral.read?, Numeral.read?, dropSign_of_startsWithDigit h]
    rfl
  rw [quantity?_of_startsWithDigit h, quantity?, hread, Option.map_map]
  rfl

theorem takeWhile_digits (h : ∀ c ∈ digits, c.isDigit = true) :
    digits.takeWhile Char.isDigit = digits :=
  List.takeWhile_eq_self_iff.mpr h

/-- Digits read as the number that they spell. -/
theorem quantity?_digits (hne : digits ≠ []) (h : ∀ c ∈ digits, c.isDigit = true) :
    quantity? digits = some (spelled digits : ℚ) := by
  have hstarts := startsWithDigit_of_all hne h
  have hwhole := takeWhile_digits h
  have hrest : digits.dropWhile Char.isDigit = [] := List.dropWhile_eq_nil_iff.mpr h
  rw [quantity?_of_startsWithDigit hstarts, Numeral.read?, dropSign_of_startsWithDigit hstarts,
    hwhole, hrest]
  simp [hne, readExponent?, Numeral.quantity]

/-- Digits around a point read as a fraction. -/
theorem quantity?_point (hne : whole ≠ []) (hwhole : ∀ c ∈ whole, c.isDigit = true)
    (hfraction : ∀ c ∈ fraction, c.isDigit = true) :
    quantity? (whole ++ '.' :: fraction) =
      some ((spelled (whole ++ fraction) : ℚ) * 10 ^ (-fraction.length : ℤ)) := by
  have hstarts := (startsWithDigit_of_all hne hwhole).append ('.' :: fraction)
  have hpoint : ¬('.'.isDigit = true) := by decide
  have hbefore : (whole ++ '.' :: fraction).takeWhile Char.isDigit = whole := by
    rw [List.takeWhile_append_of_pos hwhole, List.takeWhile_cons_of_neg hpoint, List.append_nil]
  have hbehind : (whole ++ '.' :: fraction).dropWhile Char.isDigit = '.' :: fraction := by
    rw [List.dropWhile_append_of_pos hwhole, List.dropWhile_cons_of_neg hpoint]
  have hrest : fraction.dropWhile Char.isDigit = [] := List.dropWhile_eq_nil_iff.mpr hfraction
  rw [quantity?_of_startsWithDigit hstarts, Numeral.read?, dropSign_of_startsWithDigit hstarts,
    hbefore, hbehind]
  simp [hne, hrest, takeWhile_digits hfraction, readExponent?, Numeral.quantity]

theorem isDigit_of_mem_zeros {n : Nat} {c : Char} (h : c ∈ zeros n) : c.isDigit = true := by
  rw [List.eq_of_mem_replicate h]
  decide

/-- A decimal is written with zeros behind its digits, with the point among them, or with the
point and zeros before them. -/
theorem positionalText_cases (digits : List Char) (exponent : Int) :
    (∃ n : Nat, exponent = n ∧ positionalText false digits exponent = digits ++ zeros n) ∨
    (∃ n : Nat, exponent = -n ∧ n < digits.length ∧
      positionalText false digits exponent =
        digits.take (digits.length - n) ++ '.' :: digits.drop (digits.length - n)) ∨
    ∃ n : Nat, exponent = -n ∧ digits.length ≤ n ∧
      positionalText false digits exponent =
        ['0'] ++ '.' :: (zeros (n - digits.length) ++ digits) := by
  by_cases hexponent : 0 ≤ exponent
  · refine .inl ⟨exponent.toNat, by omega, ?_⟩
    simp only [positionalText, if_pos hexponent]
    exact List.append_nil _
  · refine .inr ?_
    simp only [positionalText, if_neg hexponent]
    by_cases hplaces : (-exponent).toNat < digits.length
    · refine .inl ⟨(-exponent).toNat, by omega, hplaces, ?_⟩
      rw [if_pos hplaces]
    · refine .inr ⟨(-exponent).toNat, by omega, not_lt.mp hplaces, ?_⟩
      rw [if_neg hplaces]
      rfl

/-- The digits of a decimal with the point at its place denote the decimal. -/
theorem quantity?_positionalText (hne : digits ≠ []) (h : ∀ c ∈ digits, c.isDigit = true)
    (exponent : Int) :
    quantity? (positionalText false digits exponent) =
      some ((spelled digits : ℚ) * 10 ^ exponent) := by
  rcases positionalText_cases digits exponent with
    ⟨n, rfl, htext⟩ | ⟨n, rfl, hplaces, htext⟩ | ⟨n, rfl, hplaces, htext⟩
  · have hall : ∀ c ∈ digits ++ zeros n, c.isDigit = true := by
      intro c hc
      exact (List.mem_append.mp hc).elim (h c) isDigit_of_mem_zeros
    rw [htext, quantity?_digits (by simp [hne]) hall, spelled_append_zeros]
    push_cast
    rw [zpow_natCast]
  · have hwhole : digits.take (digits.length - n) ≠ [] := by
      rw [ne_eq, List.take_eq_nil_iff]
      exact fun hnil => hnil.elim (by omega) hne
    have hlength : digits.length - (digits.length - n) = n := by omega
    rw [htext, quantity?_point hwhole (fun c hc => h c (List.mem_of_mem_take hc))
      (fun c hc => h c (List.mem_of_mem_drop hc)), List.take_append_drop, List.length_drop, hlength]
  · have hzero : ∀ c ∈ ['0'], c.isDigit = true := List.all_eq_true.mp (by decide)
    have hall : ∀ c ∈ zeros (n - digits.length) ++ digits, c.isDigit = true := by
      intro c hc
      exact (List.mem_append.mp hc).elim isDigit_of_mem_zeros (h c)
    have hspelled : spelled (['0'] ++ (zeros (n - digits.length) ++ digits)) =
        spelled digits := by
      rw [← List.append_assoc, show ['0'] = zeros 1 from rfl, zeros, zeros,
        List.replicate_append_replicate]
      exact spelled_zeros_append digits _
    have hlength : (zeros (n - digits.length) ++ digits).length = n := by
      rw [List.length_append, zeros, List.length_replicate]
      omega
    rw [htext, quantity?_point (List.cons_ne_nil _ _) hzero hall, hspelled, hlength]

/-- Such a text begins with a digit. -/
theorem startsWithDigit_positionalText (hne : digits ≠ []) (h : ∀ c ∈ digits, c.isDigit = true)
    (exponent : Int) : StartsWithDigit (positionalText false digits exponent) := by
  rcases positionalText_cases digits exponent with
    ⟨n, rfl, htext⟩ | ⟨n, rfl, hplaces, htext⟩ | ⟨n, rfl, hplaces, htext⟩
  · rw [htext]
    exact (startsWithDigit_of_all hne h).append _
  · rw [htext]
    refine (startsWithDigit_of_all ?_ fun c hc => h c (List.mem_of_mem_take hc)).append _
    rw [ne_eq, List.take_eq_nil_iff]
    exact fun hnil => hnil.elim (by omega) hne
  · rw [htext]
    exact ⟨'0', _, rfl, by decide⟩

theorem digitsOf_ne_nil {n : Nat} : digitsOf n ≠ [] := Nat.toDigits_ne_nil

theorem isDigit_of_mem_digitsOf {n : Nat} {c : Char} (h : c ∈ digitsOf n) : c.isDigit = true :=
  Nat.isDigit_of_mem_toDigits (by decide) (by decide) h

theorem toList_toString_ofNat (k : Nat) : (toString (Int.ofNat k)).toList = digitsOf k :=
  Nat.toList_repr

theorem toList_toString_negSucc (k : Nat) :
    (toString (Int.negSucc k)).toList = '-' :: digitsOf (k + 1) := by
  have hrepr : toString (Int.negSucc k) = "-" ++ Nat.repr (k + 1) := rfl
  rw [hrepr, String.toList_append, Nat.toList_repr]
  rfl

/-- The text of a whole number denotes the number. -/
theorem quantity?_toString (n : Int) : quantity? (toString n).toList = some (n : ℚ) := by
  have hnat : ∀ k : Nat, quantity? (digitsOf k) = some (k : ℚ) := by
    intro k
    rw [quantity?_digits digitsOf_ne_nil fun _ => isDigit_of_mem_digitsOf, spelled_digitsOf]
  cases n with
  | ofNat k =>
    rw [toList_toString_ofNat, hnat]
    rfl
  | negSucc k =>
    have hstarts : StartsWithDigit (digitsOf (k + 1)) :=
      startsWithDigit_of_all digitsOf_ne_nil fun _ => isDigit_of_mem_digitsOf
    rw [toList_toString_negSucc, quantity?_minus hstarts, hnat, Option.map_some,
      Int.cast_negSucc]

end EntityQuery.Decimal
