import Crosswalk.Rdf.Iri

/-!
# Words of the RDF notations

What N-Triples and Turtle have in common below their grammars: escapes, references in angle
brackets, quoted texts, language tags and the names of blank nodes. Each function takes what stands
at the start of a list of characters and gives the rest with it.
-/

namespace Crosswalk.Rdf

/-! ## Escapes -/

def hexValue (c : Char) : Nat :=
  if c.isDigit then c.toNat - '0'.toNat else c.toLower.toNat - 'a'.toNat + 10

/-- The character of a code point in exactly `count` hexadecimal digits. -/
def hexChar? (count : Nat) (cs : List Char) : Option Char :=
  let digits := cs.take count
  let n := digits.foldl (fun n c => 16 * n + hexValue c) 0
  if digits.length == count && digits.all isHexDigit && n.isValidChar then some (Char.ofNat n)
  else none

/-- The character of a numeric escape after its backslash, and how many digits it has. -/
def numericEscape? : Char → List Char → Option (Char × Nat)
  | 'u', rest => (hexChar? 4 rest).map (·, 4)
  | 'U', rest => (hexChar? 8 rest).map (·, 8)
  | _, _ => none

/-- The character of an escape in a quoted text, and how many characters follow its letter. -/
def textEscape? (c : Char) (rest : List Char) : Option (Char × Nat) :=
  match c with
  | 't' => some ('\t', 0)
  | 'b' => some ('\x08', 0)
  | 'n' => some ('\n', 0)
  | 'r' => some ('\r', 0)
  | 'f' => some ('\x0c', 0)
  | '"' => some ('"', 0)
  | '\'' => some ('\'', 0)
  | '\\' => some ('\\', 0)
  | c => numericEscape? c rest

/-! ## References and texts -/

/-- The inside of a reference in angle brackets; `skip` counts the digits of an escape still to be
passed over. -/
def takeReferenceFrom? : Nat → List Char → Option (List Char × List Char)
  | _, [] => none
  | skip + 1, _ :: rest => takeReferenceFrom? skip rest
  | 0, '>' :: rest => some ([], rest)
  | 0, '\\' :: c :: rest => do
    let (decoded, digits) ← numericEscape? c rest
    let (text, after) ← takeReferenceFrom? (digits + 1) (c :: rest)
    some (decoded :: text, after)
  | 0, c :: rest =>
    if c.toNat ≤ 0x20 || "<\"\x7b\x7d|^`\\".toList.contains c then none
    else (takeReferenceFrom? 0 rest).map fun (text, after) => (c :: text, after)

def takeReference? (cs : List Char) : Option (String × List Char) :=
  (takeReferenceFrom? 0 cs).map fun (text, after) => (String.ofList text, after)

/-- The inside of a quoted text. A long one is closed by three quotation marks and may hold line
ends. -/
def takeTextFrom? (quote : Char) (long : Bool) : Nat → List Char → Option (List Char × List Char)
  | _, [] => none
  | skip + 1, _ :: rest => takeTextFrom? quote long skip rest
  | 0, '\\' :: c :: rest => do
    let (decoded, digits) ← textEscape? c rest
    let (text, after) ← takeTextFrom? quote long (digits + 1) (c :: rest)
    some (decoded :: text, after)
  | 0, c :: rest =>
    if c == '\\' || (!long && (c == '\n' || c == '\r')) then none
    else if c == quote && (!long || [quote, quote].isPrefixOf rest) then
      some ([], if long then rest.drop 2 else rest)
    else (takeTextFrom? quote long 0 rest).map fun (text, after) => (c :: text, after)

def takeText? (quote : Char) (long : Bool) (cs : List Char) : Option (String × List Char) :=
  (takeTextFrom? quote long 0 cs).map fun (text, after) => (String.ofList text, after)

/-! ## Names -/

def isLetterChar (c : Char) : Bool :=
  let n := c.toNat
  c.isAlpha || (0xC0 ≤ n && n ≤ 0xD6) || (0xD8 ≤ n && n ≤ 0xF6) || (0xF8 ≤ n && n ≤ 0x2FF) ||
    (0x370 ≤ n && n ≤ 0x37D) || (0x37F ≤ n && n ≤ 0x1FFF) || (0x200C ≤ n && n ≤ 0x200D) ||
    (0x2070 ≤ n && n ≤ 0x218F) || (0x2C00 ≤ n && n ≤ 0x2FEF) || (0x3001 ≤ n && n ≤ 0xD7FF) ||
    (0xF900 ≤ n && n ≤ 0xFDCF) || (0xFDF0 ≤ n && n ≤ 0xFFFD) || (0x10000 ≤ n && n ≤ 0xEFFFF)

def isWordChar (c : Char) : Bool :=
  let n := c.toNat
  isLetterChar c || c == '_' || c == '-' || c.isDigit || n == 0xB7 ||
    (0x300 ≤ n && n ≤ 0x36F) || (0x203F ≤ n && n ≤ 0x2040)

/-- Drops the points at the end of a name and puts them back before the rest. -/
def releasePoints (name rest : List Char) : List Char × List Char :=
  let points := name.reverse.takeWhile (· == '.')
  (name.take (name.length - points.length), points ++ rest)

/-- The name of a blank node after `_:`. -/
def takeBlankLabel? (cs : List Char) : Option (String × List Char) :=
  match cs with
  | c :: _ =>
    if isLetterChar c || c == '_' || c.isDigit then
      let name := cs.takeWhile fun c => isWordChar c || c == '.'
      let (name, rest) := releasePoints name (cs.drop name.length)
      some (String.ofList name, rest)
    else none
  | [] => none

def takeLanguage? (cs : List Char) : Option (String × List Char) :=
  let tag := cs.takeWhile fun c => c.isAlphanum || c == '-'
  if tag.isEmpty then none else some (String.ofList tag, cs.drop tag.length)

end Crosswalk.Rdf
