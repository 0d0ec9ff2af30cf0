import Crosswalk.Number.Width

/-!
# Decimals with eighteen places

The values of `xsd:decimal` that are kept: integers, in units of `10 ^ -18`, of 128 bits. A decimal
has one canonical text: no plus sign, no needless zeros, and no point behind an integer.
-/

namespace Crosswalk.Rdf

/-- How many units make one. -/
def decimalScale : Nat := Nat.pow 10 18

def fitsDecimal (units : Int) : Bool :=
  Number.fitsSigned 128 units

def valueOfDigits (cs : List Char) : Nat :=
  cs.foldl (fun n c => 10 * n + (c.toNat - '0'.toNat)) 0

def takeDigits (cs : List Char) : List Char × List Char :=
  (cs.takeWhile Char.isDigit, cs.dropWhile Char.isDigit)

/-- A sign, if there is one: whether it is a minus, and the rest. -/
def takeSign : List Char → Bool × List Char
  | '+' :: rest => (false, rest)
  | '-' :: rest => (true, rest)
  | cs => (false, cs)

def applySign (negative : Bool) (n : Nat) : Int :=
  if negative then -(n : Int) else n

def readInteger? (cs : List Char) : Option Int :=
  let (negative, digits) := takeSign cs
  let n := applySign negative (valueOfDigits digits)
  if digits.isEmpty || !digits.all Char.isDigit then none
  else if Number.fitsSigned 64 n then some n
  else none

def dropFinalZeros (cs : List Char) : List Char :=
  (cs.reverse.dropWhile (· == '0')).reverse

/-- The units of an unsigned number, if it has at most eighteen places. -/
def readUnits? (cs : List Char) : Option Nat :=
  let (whole, rest) := takeDigits cs
  match rest with
  | [] => if whole.isEmpty then none else some (valueOfDigits whole * decimalScale)
  | '.' :: places =>
    let fraction := dropFinalZeros places
    if (whole.isEmpty && places.isEmpty) || !fraction.all Char.isDigit || 18 < fraction.length then none
    else some (valueOfDigits (whole ++ fraction) * Nat.pow 10 (18 - fraction.length))
  | _ => none

def readDecimal? (cs : List Char) : Option Int := do
  let (negative, unsigned) := takeSign cs
  let n ← readUnits? unsigned
  let units := applySign negative n
  if fitsDecimal units then some units else none

/-- The digits of a number, with zeros in front up to a width. -/
def padDigits (width n : Nat) : List Char :=
  let digits := Nat.toDigits 10 n
  List.replicate (width - digits.length) '0' ++ digits

/-- The places behind a point, with the point, or nothing. -/
def fractionText (units : Nat) : List Char :=
  match dropFinalZeros (padDigits 18 (units % decimalScale)) with
  | [] => []
  | places => '.' :: places

/-- A number of units, with at least `width` digits before the point. -/
def unitsText (width units : Nat) : List Char :=
  padDigits width (units / decimalScale) ++ fractionText units

def decimalText (units : Int) : List Char :=
  (if units < 0 then ['-'] else []) ++ unitsText 1 units.natAbs

end Crosswalk.Rdf
