import Crosswalk.Rdf.Lexical
import Crosswalk.Text.Percent
import Mathlib

/-!
# Percent codes can be read back

The code of a byte begins with a character that stands for nothing else and has a fixed length, so the bytes of
a text can be read back from its encoding, one code or plain character after the other. Different texts
therefore have different encodings, and none of them holds a character that separates the segments of a path.

Reading knows nothing of the encoding: it takes any code, also of a character that would have stood for itself or
in lower-case digits, and leaves all else as it is. What is read are bytes, which need not be those of a text.
-/

namespace Crosswalk.Text

open Rdf (hexValue isHexDigit)

/-- The bytes that a text with percent codes stands for. A percent sign that does not begin a code stands for
itself, like any other character. -/
def percentDecode : List Char → List UInt8
  | '%' :: high :: low :: rest =>
    if isHexDigit high && isHexDigit low then
      UInt8.ofNat (16 * hexValue high + hexValue low) :: percentDecode rest
    else String.utf8EncodeChar '%' ++ percentDecode (high :: low :: rest)
  | c :: rest => String.utf8EncodeChar c ++ percentDecode rest
  | [] => []

/-- The text that a text with percent codes stands for, if the bytes are the UTF-8 form of one. -/
def percentDecode? (s : String) : Option String :=
  String.fromUTF8? (percentDecode s.toList).toByteArray

/-- An upper-case hexadecimal digit. -/
def IsUpperHex (c : Char) : Prop :=
  c ∈ "0123456789ABCDEF".toList

theorem isUpperHex_hexDigit : ∀ n < 16, IsUpperHex (hexDigit n) := by
  unfold IsUpperHex
  decide

theorem hexValue_hexDigit : ∀ n < 16, isHexDigit (hexDigit n) = true ∧ hexValue (hexDigit n) = n := by
  decide

theorem percentDecode_percentByte (b : UInt8) (rest : List Char) :
    percentDecode (percentByte b ++ rest) = b :: percentDecode rest := by
  have hb := b.toNat_lt
  have hhigh : b.toNat / 16 < 16 := by omega
  have hlow : b.toNat % 16 < 16 := by omega
  have hcode : (isHexDigit (hexDigit (b.toNat / 16)) && isHexDigit (hexDigit (b.toNat % 16))) = true := by
    rw [(hexValue_hexDigit _ hhigh).1, (hexValue_hexDigit _ hlow).1, Bool.and_self]
  rw [percentByte, List.cons_append, List.cons_append, List.cons_append, List.nil_append, percentDecode,
    if_pos hcode, (hexValue_hexDigit _ hhigh).2, (hexValue_hexDigit _ hlow).2, Nat.div_add_mod,
    UInt8.ofNat_toNat]

theorem percentDecode_percentChar (c : Char) (rest : List Char) :
    percentDecode (percentChar c ++ rest) = String.utf8EncodeChar c ++ percentDecode rest := by
  rw [percentChar]
  split
  next h =>
    have hpercent : c ≠ '%' := by
      rintro rfl
      rw [not_isSegmentChar_percent] at h
      cases h
    rw [List.singleton_append, percentDecode]
    exact fun _ _ _ hc _ => hpercent hc
  next =>
    induction String.utf8EncodeChar c with
    | nil => rfl
    | cons b bytes ih =>
      rw [List.flatMap_cons, List.append_assoc, percentDecode_percentByte, ih]
      rfl

/-- What is encoded can be read back. -/
theorem percentDecode_percentEncode (s : String) :
    percentDecode (percentEncode s).toList = s.toList.flatMap String.utf8EncodeChar := by
  rw [percentEncode, String.toList_ofList]
  induction s.toList with
  | nil => rw [List.flatMap_nil, List.flatMap_nil, percentDecode]
  | cons c cs ih => rw [List.flatMap_cons, List.flatMap_cons, percentDecode_percentChar, ih]

theorem percentEncode_injective : Function.Injective percentEncode := by
  intro s t h
  have hbytes := congrArg (fun u => percentDecode u.toList) h
  simp only [percentDecode_percentEncode] at hbytes
  rw [← String.toByteArray_inj, ← String.ofList_toList (s := s), ← String.ofList_toList (s := t)]
  rw [String.toByteArray_ofList, String.toByteArray_ofList, List.utf8Encode, List.utf8Encode, hbytes]

theorem percentEncode_eq_empty_iff {s : String} : percentEncode s = "" ↔ s = "" :=
  ⟨fun h => percentEncode_injective (h.trans percentEncode_empty.symm), fun h => h ▸ percentEncode_empty⟩

/-! ## Encodings are plain -/

/-- A text of ASCII letters and digits, of marks that a segment may hold, and of codes. -/
inductive Escaped : List Char → Prop
  | nil : Escaped []
  | plain {c : Char} {rest : List Char} (hc : c.isAlphanum = true ∨ c ∈ "-._~!$&'()*+,;=:@".toList)
      (hrest : Escaped rest) : Escaped (c :: rest)
  | code {high low : Char} {rest : List Char} (hhigh : IsUpperHex high) (hlow : IsUpperHex low)
      (hrest : Escaped rest) : Escaped ('%' :: high :: low :: rest)

theorem Escaped.percentByte_append (b : UInt8) {rest : List Char} (h : Escaped rest) :
    Escaped (percentByte b ++ rest) := by
  have hb := b.toNat_lt
  exact .code (isUpperHex_hexDigit _ (by omega)) (isUpperHex_hexDigit _ (by omega)) h

theorem Escaped.percentChar_append (c : Char) {rest : List Char} (h : Escaped rest) :
    Escaped (percentChar c ++ rest) := by
  rw [percentChar]
  split
  next hc =>
    rw [isSegmentChar, Bool.or_eq_true, List.contains_iff_mem] at hc
    exact .plain hc h
  next =>
    induction String.utf8EncodeChar c with
    | nil => exact h
    | cons b bytes ih =>
      rw [List.flatMap_cons, List.append_assoc]
      exact .percentByte_append b ih

theorem escaped_percentEncode (s : String) : Escaped (percentEncode s).toList := by
  rw [percentEncode, String.toList_ofList]
  induction s.toList with
  | nil => exact .nil
  | cons c cs ih =>
    rw [List.flatMap_cons]
    exact .percentChar_append c ih

theorem Escaped.slash_not_mem {cs : List Char} (h : Escaped cs) : '/' ∉ cs := by
  have hdigit {c : Char} (hc : IsUpperHex c) : '/' ≠ c := by
    rintro rfl
    exact absurd hc (by unfold IsUpperHex; decide)
  induction h with
  | nil => exact List.not_mem_nil
  | plain hc _ ih =>
    refine List.not_mem_cons_of_ne_of_not_mem ?_ ih
    rintro rfl
    exact absurd hc (by decide)
  | code hhigh hlow _ ih =>
    rw [List.mem_cons, List.mem_cons, List.mem_cons]
    rintro (h | h | h | h)
    · cases h
    · exact hdigit hhigh h
    · exact hdigit hlow h
    · exact ih h

theorem slash_not_mem_percentEncode (s : String) : '/' ∉ (percentEncode s).toList :=
  (escaped_percentEncode s).slash_not_mem

/-- An encoding holds nothing but plain characters and codes, and the text can be read back from it. -/
theorem percentEncode_reversible (s : String) :
    Escaped (percentEncode s).toList ∧ percentDecode? (percentEncode s) = some s := by
  have hbytes : (percentDecode (percentEncode s).toList).toByteArray = s.toByteArray := by
    calc (percentDecode (percentEncode s).toList).toByteArray
        = (s.toList.flatMap String.utf8EncodeChar).toByteArray := by rw [percentDecode_percentEncode]
      _ = (String.ofList s.toList).toByteArray := by rw [String.toByteArray_ofList, List.utf8Encode]
      _ = s.toByteArray := by rw [String.ofList_toList]
  refine ⟨escaped_percentEncode s, ?_⟩
  rw [percentDecode?, hbytes, String.fromUTF8?, dif_pos s.isValidUTF8]
  rfl

example : percentEncode "a b/ü" = "a%20b%2F%C3%BC" := by decide

example : percentDecode? "100% %c3%bC" = some "100% ü" := by decide +kernel

end Crosswalk.Text
