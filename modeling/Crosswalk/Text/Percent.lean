/-!
# Percent encoding

A text as a segment of an IRI path. Letters, digits and the marks that a segment may hold stand for
themselves; of every other character each byte of its UTF-8 form is written as `%` and two
hexadecimal digits. `%` itself is always encoded, so no text can imitate an escape.
-/

namespace Crosswalk.Text

def isSegmentChar (c : Char) : Bool :=
  c.isAlphanum || "-._~!$&'()*+,;=:@".toList.contains c

def hexDigit (n : Nat) : Char :=
  if n < 10 then Char.ofNat ('0'.toNat + n) else Char.ofNat ('A'.toNat + (n - 10))

def percentByte (b : UInt8) : List Char :=
  ['%', hexDigit (b.toNat / 16), hexDigit (b.toNat % 16)]

def percentChar (c : Char) : List Char :=
  if isSegmentChar c then [c] else (String.utf8EncodeChar c).flatMap percentByte

def percentEncode (s : String) : String :=
  String.ofList (s.toList.flatMap percentChar)

/-! ## Lemmas -/

theorem not_isSegmentChar_percent : isSegmentChar '%' = false := by decide

theorem percentEncode_empty : percentEncode "" = "" := rfl

end Crosswalk.Text
