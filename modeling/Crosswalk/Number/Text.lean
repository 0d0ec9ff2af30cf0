import Crosswalk.Number.Shortest
import Crosswalk.Text.Blank

/-!
# Numbers in text

Reading a number accepts decimals with or without a point and an exponent, and the words for
infinity and for no number, in any case. Writing gives the fewest digits that read back, never
with an exponent; the text of a token shows its kind of number by a fraction, or by an exponent when
the number is very large or very small.
-/

namespace Crosswalk.Number

/-! ## Reading -/

def digitsValue (cs : List Char) : Nat :=
  cs.foldl (fun n c => 10 * n + (c.toNat - '0'.toNat)) 0

/-- The exponent part at the end of a number: nothing, or `e`, a sign and digits. -/
def readExponent? : List Char → Option Int
  | [] => some 0
  | e :: rest =>
    if e == 'e' || e == 'E' then
      let (negative, digits) := match rest with
        | '-' :: ds => (true, ds)
        | '+' :: ds => (false, ds)
        | ds => (false, ds)
      if digits.isEmpty || !digits.all Char.isDigit then none
      else some (if negative then -(digitsValue digits : Int) else digitsValue digits)
    else none

/-- `digits * 10 ^ k` in the format. Far outside the format's range no power is computed. -/
def ofDecimal (fmt : NumberFormat) (negative : Bool) (digits count : Nat) (k : Int) : Number :=
  if digits = 0 then .finite negative 0 fmt.minExponent
  else if 400 < k + count then .infinite negative
  else if k + count < -400 then .finite negative 0 fmt.minExponent
  else match k with
    | .ofNat j => ofRatio fmt negative (digits * Nat.pow 10 j) 1
    | .negSucc j => ofRatio fmt negative digits (Nat.pow 10 (j + 1))

def readWord? (negative : Bool) (cs : List Char) : Option Number :=
  let word := cs.map Char.toLower
  if word == "inf".toList || word == "infinity".toList then some (.infinite negative)
  else if word == "nan".toList then some .nan
  else none

def readUnsigned? (fmt : NumberFormat) (negative : Bool) (cs : List Char) : Option Number :=
  let whole := cs.takeWhile Char.isDigit
  let (fraction, rest) := match cs.dropWhile Char.isDigit with
    | '.' :: more => (more.takeWhile Char.isDigit, more.dropWhile Char.isDigit)
    | more => ([], more)
  if whole.isEmpty && fraction.isEmpty then readWord? negative cs
  else
    (readExponent? rest).map fun k =>
      let significant := (whole ++ fraction).dropWhile (· == '0')
      ofDecimal fmt negative (digitsValue significant) significant.length (k - fraction.length)

/-- Reads a number of the format; the whole text has to be one. -/
def read? (fmt : NumberFormat) (cs : List Char) : Option Number :=
  match cs with
  | '-' :: rest => readUnsigned? fmt true rest
  | '+' :: rest => readUnsigned? fmt false rest
  | rest => readUnsigned? fmt false rest

/-- The number that a text stands for when it is compared: blanks around it do not count, and a text
that is no number stands for `nan`. -/
def ofText (s : String) : Number :=
  (read? .double (Text.trimChars s.toList)).getD .nan

/-! ## Writing -/

def digits (n : Nat) : List Char :=
  Nat.toDigits 10 n

/-- Positional notation of a decimal, with at least `places` digits after the point. -/
def positional (places : Nat) (d : Decimal) : List Char :=
  let ds := digits d.digits
  let point : Int := ds.length + d.exponent
  let (whole, fraction) :=
    if point ≤ 0 then (['0'], List.replicate (-point).toNat '0' ++ ds)
    else if d.exponent ≥ 0 then (ds ++ List.replicate d.exponent.toNat '0', [])
    else (ds.take point.toNat, ds.drop point.toNat)
  let fraction := fraction ++ List.replicate (places - fraction.length) '0'
  if fraction.isEmpty then whole else whole ++ '.' :: fraction

/-- Notation with one digit before the point and an exponent. -/
def exponential (d : Decimal) : List Char :=
  let ds := digits d.digits
  let e : Int := ds.length - 1 + d.exponent
  ds.take 1 ++ (if ds.length ≤ 1 then [] else '.' :: ds.drop 1) ++ 'e' :: (toString e).toList

def toDecimal (fmt : NumberFormat) (m : Nat) (e : Int) : Decimal :=
  if m = 0 then ⟨0, 0⟩ else shortest fmt m e

/-- A number in positional notation, with the fewest digits. -/
def display (fmt : NumberFormat) : Number → String
  | nan => "NaN"
  | infinite s => if s then "-inf" else "inf"
  | finite s m e =>
    let text := positional 0 (toDecimal fmt m e)
    String.ofList (if s then '-' :: text else text)

/-- A number in the text of a token: at least one place after the point, and an exponent from
`10 ^ 16` up and below `10 ^ -4`. -/
def displayToken : Number → String
  | nan => "NaN"
  | infinite s => if s then "-inf" else "inf"
  | finite s m e =>
    let d := toDecimal .double m e
    let point : Int := (digits d.digits).length + d.exponent
    let text :=
      if m ≠ 0 ∧ (16 < point ∨ point < -3) then exponential d else positional 1 d
    String.ofList (if s then '-' :: text else text)

def clampInt64 (n : Int) : Int :=
  max (-9223372036854775808) (min 9223372036854775807 n)

/-- The text of a number that a path expression gives: integers are written as integers of 64
bits, saturated, and all else positionally. -/
def toText (x : Number) : String :=
  match x.toInt? with
  | some n => toString (clampInt64 n)
  | none => x.display .double

end Crosswalk.Number
