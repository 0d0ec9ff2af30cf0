/-!
# Characters of XML

Which characters a document may hold at all, which ones separate, and which ones form names.
-/

namespace Crosswalk.Xml

def isXmlChar (c : Char) : Bool :=
  let n := c.toNat
  if n < 0x20 then n == 9 || n == 10 || n == 13 else n != 0xFFFE && n != 0xFFFF

def isSpace (c : Char) : Bool :=
  c == ' ' || c == '\t' || c == '\n' || c == '\r'

/-- Ranges above ASCII of the characters that may begin a name. -/
def nameStartRanges : List (Nat × Nat) :=
  [(0xC0, 0xD6), (0xD8, 0xF6), (0xF8, 0x2FF), (0x370, 0x37D), (0x37F, 0x1FFF), (0x200C, 0x200D),
   (0x2070, 0x218F), (0x2C00, 0x2FEF), (0x3001, 0xD7FF), (0xF900, 0xFDCF), (0xFDF0, 0xFFFD),
   (0x10000, 0xEFFFF)]

/-- Ranges above ASCII of the characters that may continue a name and not begin it. -/
def nameExtraRanges : List (Nat × Nat) :=
  [(0xB7, 0xB7), (0x300, 0x36F), (0x203F, 0x2040)]

def isNameStart (c : Char) : Bool :=
  let n := c.toNat
  if n ≤ 128 then c.isAlpha || c == ':' || c == '_'
  else nameStartRanges.any fun (a, b) => a ≤ n && n ≤ b

def isNameChar (c : Char) : Bool :=
  let n := c.toNat
  if n ≤ 128 then c.isAlphanum || c == ':' || c == '_' || c == '-' || c == '.'
  else (nameStartRanges ++ nameExtraRanges).any fun (a, b) => a ≤ n && n ≤ b

end Crosswalk.Xml
