import Crosswalk.Digest.Sha1
import Crosswalk.Text.Percent

/-!
# UUIDs and other fresh identifiers

Identifiers come from a source that is drawn from. A source is either random, or it counts: then
the labels are `A`, `B`, … written in base 26 with leading `A`s up to a fixed width, so that two
runs over the same document agree. A random source hashes a seed together with the number of the draw.

A name also has a UUID of its own, made from its digest.
-/

namespace Crosswalk

/-! ## Layout -/

def hexByte (b : UInt8) : List Char :=
  [(Text.hexDigit (b.toNat / 16)).toLower, (Text.hexDigit (b.toNat % 16)).toLower]

/-- Sixteen bytes in groups of 4, 2, 2, 2 and 6 with hyphens between them. -/
def uuidText (bytes : List UInt8) : String :=
  let group (start count : Nat) := ((bytes.drop start).take count).flatMap hexByte
  String.ofList <|
    group 0 4 ++ '-' :: group 4 2 ++ '-' :: group 6 2 ++ '-' :: group 8 2 ++ '-' :: group 10 6

/-- Writes the version and the variant over the bits of sixteen bytes that are meant for them. -/
def markUuid (version : Nat) (bytes : List UInt8) : List UInt8 :=
  (bytes.take 16).mapIdx fun i b =>
    if i = 6 then UInt8.ofNat (version * 16 + b.toNat % 16)
    else if i = 8 then UInt8.ofNat (128 + b.toNat % 64)
    else b

/-- The namespace of names that are URLs: 6ba7b811-9dad-11d1-80b4-00c04fd430c8. -/
def urlNamespace : List UInt8 :=
  [0x6b, 0xa7, 0xb8, 0x11, 0x9d, 0xad, 0x11, 0xd1, 0x80, 0xb4, 0x00, 0xc0, 0x4f, 0xd4, 0x30, 0xc8]

def nameUuid (name : String) : String :=
  uuidText (markUuid 5 (Digest.sha1 (urlNamespace ++ name.toUTF8.toList)))

def randomUuid (seed : List UInt8) (draw : Nat) : String :=
  uuidText (markUuid 4 (Digest.sha1 (seed ++ Digest.bigEndian 8 draw)))

/-! ## Labels -/

def labelLetter (n : Nat) : Char :=
  Char.ofNat ('A'.toNat + n)

def labelDigits (n : Nat) : List Char :=
  if n < 26 then [labelLetter n] else labelDigits (n / 26) ++ [labelLetter (n % 26)]
termination_by n
decreasing_by omega

/-- A number in base 26 with leading `A`s up to a width. -/
def label (width n : Nat) : String :=
  let digits := labelDigits n
  String.ofList (List.replicate (width - digits.length) 'A' ++ digits)

/-! ## Sources -/

/-- A source of identifiers; `drawn` counts what was taken from it. -/
inductive UuidSource where
  | random (seed : List UInt8) (drawn : Nat)
  | alphabetic (width drawn : Nat)
  deriving DecidableEq, Repr, Inhabited

namespace UuidSource

def scheme : UuidSource → String
  | random _ _ => "urn:uuid:"
  | alphabetic _ _ => "uuid:"

/-- What the next identifier is, its scheme apart. -/
def peek : UuidSource → String
  | random seed drawn => randomUuid seed drawn
  | alphabetic width drawn => label width drawn

def advance : UuidSource → UuidSource
  | random seed drawn => random seed (drawn + 1)
  | alphabetic width drawn => alphabetic width (drawn + 1)

/-- Draws an identifier without its scheme, to be appended to a name. -/
def nextSuffix (s : UuidSource) : String × UuidSource :=
  (s.peek, s.advance)

/-- Draws an identifier. -/
def nextUri (s : UuidSource) : String × UuidSource :=
  (s.scheme ++ s.peek, s.advance)

end UuidSource

end Crosswalk
