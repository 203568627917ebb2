import EntityQuery.Text.Percent
import Mathlib.Tactic.Common

/-!
# Reading percent-encoded texts

A percent sign and two hexadecimal digits stand for a byte, any other character for its own bytes
in UTF-8. An encoded text holds unreserved characters and percent signs only, and reading it
gives back the text that was encoded, also behind a text that stands as it is.
-/

namespace EntityQuery.Text

/-- The number that a hexadecimal digit stands for, in capitals or in small letters. -/
def hexValue? (c : Char) : Option Nat :=
  if c.isDigit then some (c.toNat - 48)
  else if 'A' ≤ c ∧ c ≤ 'F' then some (c.toNat - 55)
  else if 'a' ≤ c ∧ c ≤ 'f' then some (c.toNat - 87)
  else none

/-- The bytes that a percent-encoded text stands for. A percent sign stands for itself where no
two hexadecimal digits follow. -/
def percentBytes : List Char → List UInt8
  | [] => []
  | '%' :: high :: low :: rest =>
    match hexValue? high, hexValue? low with
    | some h, some l => UInt8.ofNat (16 * h + l) :: percentBytes rest
    | _, _ => String.utf8EncodeChar '%' ++ percentBytes (high :: low :: rest)
  | c :: rest => String.utf8EncodeChar c ++ percentBytes rest

/-- The text that a percent-encoded text stands for, unless its bytes are no text. -/
def percentDecode? (text : String) : Option String :=
  String.fromUTF8? (percentBytes text.toList).toByteArray

/-- A digit stands for the number it was written for. -/
theorem hexValue?_hexDigit {n : Nat} (h : n < 16) : hexValue? (hexDigit n) = some n := by
  have hall : ∀ n < 16, hexValue? (hexDigit n) = some n := by decide
  exact hall n h

/-- Hexadecimal digits are unreserved. -/
theorem isUnreserved_hexDigit {n : Nat} (h : n < 16) : isUnreserved (hexDigit n) = true := by
  have hall : ∀ n < 16, isUnreserved (hexDigit n) = true := by decide
  exact hall n h

/-- An encoded text holds unreserved characters and percent signs only. -/
theorem not_mem_percentEncode {c : Char} (hreserved : isUnreserved c = false) (hpercent : c ≠ '%')
    (text : String) : c ∉ (percentEncode text).toList := by
  have hbyte : ∀ byte : UInt8, c ∉ percentByte byte := by
    intro byte hmem
    have hhigh : byte.toNat / 16 < 16 := by have := byte.toNat_lt; omega
    have hlow : byte.toNat % 16 < 16 := by omega
    have hdigit : ∀ n < 16, c ≠ hexDigit n := by
      rintro n hn rfl
      simp [isUnreserved_hexDigit hn] at hreserved
    simp [percentByte, hpercent, hdigit _ hhigh, hdigit _ hlow] at hmem
  intro hmem
  rw [percentEncode, String.toList_ofList] at hmem
  obtain ⟨d, _, hd⟩ := List.mem_flatMap.mp hmem
  unfold percentChar at hd
  by_cases hplain : isUnreserved d = true
  · rw [if_pos hplain, List.mem_singleton] at hd
    rw [hd, hplain] at hreserved
    cases hreserved
  · rw [if_neg hplain] at hd
    obtain ⟨byte, _, hmem⟩ := List.mem_flatMap.mp hd
    exact hbyte byte hmem

/-- A character other than the percent sign stands for its bytes. -/
theorem percentBytes_cons {c : Char} (h : c ≠ '%') (rest : List Char) :
    percentBytes (c :: rest) = String.utf8EncodeChar c ++ percentBytes rest := by
  rw [percentBytes]
  rintro high low tail rfl _
  exact h rfl

/-- A text without percent signs stands for its bytes. -/
theorem percentBytes_append {front : List Char} (h : '%' ∉ front) (rest : List Char) :
    percentBytes (front ++ rest) = front.flatMap String.utf8EncodeChar ++ percentBytes rest := by
  induction front with
  | nil => rfl
  | cons c front ih =>
    rw [List.mem_cons, not_or] at h
    obtain ⟨hc, hfront⟩ := h
    rw [List.cons_append, percentBytes_cons (Ne.symm hc), ih hfront, List.flatMap_cons,
      List.append_assoc]

/-- An encoded byte is read. -/
theorem percentBytes_percentByte (byte : UInt8) (rest : List Char) :
    percentBytes (percentByte byte ++ rest) = byte :: percentBytes rest := by
  have hbyte := byte.toNat_lt
  have hvalue : UInt8.ofNat (16 * (byte.toNat / 16) + byte.toNat % 16) = byte := by
    rw [Nat.div_add_mod, UInt8.ofNat_toNat]
  rw [percentByte, List.cons_append, List.cons_append, List.cons_append, List.nil_append,
    percentBytes, hexValue?_hexDigit (by omega), hexValue?_hexDigit (by omega)]
  simp only [hvalue]

/-- Encoded bytes are read one after the other. -/
theorem percentBytes_flatMap (bytes : List UInt8) (rest : List Char) :
    percentBytes (bytes.flatMap percentByte ++ rest) = bytes ++ percentBytes rest := by
  induction bytes with
  | nil => rfl
  | cons byte bytes ih =>
    rw [List.flatMap_cons, List.append_assoc, percentBytes_percentByte, ih, List.cons_append]

/-- An encoded character stands for its bytes. -/
theorem percentBytes_percentChar (c : Char) (rest : List Char) :
    percentBytes (percentChar c ++ rest) = String.utf8EncodeChar c ++ percentBytes rest := by
  unfold percentChar
  by_cases hplain : isUnreserved c = true
  · have hne : c ≠ '%' := by
      rintro rfl
      cases hplain
    rw [if_pos hplain, List.singleton_append, percentBytes_cons hne]
  · rw [if_neg hplain, percentBytes_flatMap]

/-- An encoded text stands for its bytes. -/
theorem percentBytes_percentEncode (text : String) :
    percentBytes (percentEncode text).toList = text.toList.flatMap String.utf8EncodeChar := by
  rw [percentEncode, String.toList_ofList]
  induction text.toList with
  | nil => rfl
  | cons c cs ih => rw [List.flatMap_cons, percentBytes_percentChar, ih, List.flatMap_cons]

/-- The bytes of a text are the bytes of no other text. -/
theorem fromUTF8?_utf8Encode (text : String) :
    String.fromUTF8? (text.toList.flatMap String.utf8EncodeChar).toByteArray = some text := by
  have hbytes : (text.toList.flatMap String.utf8EncodeChar).toByteArray = text.toByteArray :=
    String.utf8Encode_toList
  rw [String.fromUTF8?, hbytes, dif_pos text.isValidUTF8]
  rfl

/-- Reading undoes the encoding, also behind a text without percent signs. -/
theorem percentDecode?_append_percentEncode {front : String} (h : '%' ∉ front.toList)
    (text : String) : percentDecode? (front ++ percentEncode text) = some (front ++ text) := by
  rw [percentDecode?, String.toList_append, percentBytes_append h, percentBytes_percentEncode,
    ← List.flatMap_append, ← String.toList_append, fromUTF8?_utf8Encode]

/-- Reading undoes the encoding. -/
theorem percentDecode?_percentEncode (text : String) :
    percentDecode? (percentEncode text) = some text := by
  have hnone : '%' ∉ "".toList := List.not_mem_nil
  have hread := percentDecode?_append_percentEncode hnone text
  rwa [String.empty_append, String.empty_append] at hread

end EntityQuery.Text
