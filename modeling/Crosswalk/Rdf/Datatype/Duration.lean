import Crosswalk.Rdf.Datatype.Decimal

/-!
# Durations

A duration counts months and seconds. Its lexical form names years, months, days, hours, minutes
and seconds, each at most once and in this order; its canonical text names the fewest that say the
same.
-/

namespace Crosswalk.Rdf

/-- Months, and seconds in units of `10 ^ -18`. -/
structure Duration where
  negative : Bool
  months : Nat
  seconds : Nat
  deriving DecidableEq, Repr

/-- A count with its designator, zero when it is not there, and the rest. -/
def takeCount (designator : Char) (cs : List Char) : Option Nat × List Char :=
  match takeDigits cs with
  | (digits, d :: rest) =>
    if !digits.isEmpty && d == designator then (some (valueOfDigits digits), rest) else (none, cs)
  | _ => (none, cs)

/-- Seconds with their designator, which may have places behind a point. -/
def takeSecondCount (cs : List Char) : Option Nat × List Char :=
  let number := cs.takeWhile fun c => c.isDigit || c == '.'
  match cs.drop number.length with
  | 'S' :: rest =>
    match readUnits? number with
    | some units =>
      if number.getLast? == some '.' || number.head? == some '.' then (none, cs)
      else (some units, rest)
    | none => (none, cs)
  | _ => (none, cs)

/-- The part of a duration behind `T`: at least one of hours, minutes and seconds. -/
def readTimePart? : List Char → Option (Option Nat)
  | [] => some none
  | 'T' :: cs =>
    let (hours?, rest) := takeCount 'H' cs
    let (minutes?, rest) := takeCount 'M' rest
    let (seconds?, rest) := takeSecondCount rest
    if !rest.isEmpty || (hours?.isNone && minutes?.isNone && seconds?.isNone) then none
    else
      some (some ((hours?.getD 0 * 3600 + minutes?.getD 0 * 60) * decimalScale + seconds?.getD 0))
  | _ => none

def readDuration? (cs : List Char) : Option (Duration × Bool × Bool) := do
  let (negative, rest) := match cs with
    | '-' :: rest => (true, rest)
    | _ => (false, cs)
  match rest with
  | 'P' :: rest =>
    let (years?, rest) := takeCount 'Y' rest
    let (months?, rest) := takeCount 'M' rest
    let (days?, rest) := takeCount 'D' rest
    let time? ← readTimePart? rest
    let namesMonths := years?.isSome || months?.isSome
    let namesSeconds := days?.isSome || time?.isSome
    let months := years?.getD 0 * 12 + months?.getD 0
    let seconds := days?.getD 0 * 86400 * decimalScale + time?.getD 0
    if !(namesMonths || namesSeconds) || !Number.fitsUnsigned 63 months ||
        !Number.fitsUnsigned 127 seconds then none
    else some (⟨negative, months, seconds⟩, namesMonths, namesSeconds)
  | _ => none

def countText (n : Nat) (designator : Char) : List Char :=
  if n == 0 then [] else Nat.toDigits 10 n ++ [designator]

def Duration.text (d : Duration) : List Char :=
  if d.months == 0 && d.seconds == 0 then "PT0S".toList
  else
    let whole := d.seconds / decimalScale
    let second := d.seconds % (60 * decimalScale)
    let time :=
      countText (whole % 86400 / 3600) 'H' ++ countText (whole % 3600 / 60) 'M' ++
        (if second == 0 then [] else unitsText 1 second ++ ['S'])
    (if d.negative then ['-'] else []) ++ 'P' :: countText (d.months / 12) 'Y' ++
      countText (d.months % 12) 'M' ++ countText (whole / 86400) 'D' ++
      (if time.isEmpty then [] else 'T' :: time)

def canonicalDuration? (cs : List Char) : Option (List Char) :=
  (readDuration? cs).map fun (d, _) => d.text

def canonicalMonths? (cs : List Char) : Option (List Char) := do
  let (d, _, namesSeconds) ← readDuration? cs
  if namesSeconds then none
  else if d.months == 0 then some "P0M".toList
  else some d.text

def canonicalSeconds? (cs : List Char) : Option (List Char) := do
  let (d, namesMonths, _) ← readDuration? cs
  if namesMonths then none else some d.text

end Crosswalk.Rdf
