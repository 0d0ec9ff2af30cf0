import Crosswalk.Rdf.Datatype.Decimal

/-!
# Dates and times

The datatypes of XML Schema that speak of the calendar. Each has a lexical form, which is read into
numbers, and one canonical text. Hour 24 is the first hour of the next day, a time zone without an
offset is written `Z`, and seconds have no needless zeros.
-/

namespace Crosswalk.Rdf

/-! ## The calendar -/

/-- Every fourth year is a leap year, save the centuries that 400 does not divide. -/
def isLeapYear (year : Int) : Bool :=
  year % 4 == 0 && (year % 100 != 0 || year % 400 == 0)

def daysInMonth (leap : Bool) (month : Nat) : Nat :=
  if month == 2 then (if leap then 29 else 28)
  else if month == 4 || month == 6 || month == 9 || month == 11 then 30
  else 31

def nextDay (year : Int) (month day : Nat) : Int × Nat × Nat :=
  if day < daysInMonth (isLeapYear year) month then (year, month, day + 1)
  else if month < 12 then (year, month + 1, 1)
  else (year + 1, 1, 1)

/-! ## Reading the parts -/

/-- Two digits, as a number in a range. -/
def takeTwo? (low high : Nat) : List Char → Option (Nat × List Char)
  | a :: b :: rest =>
    let n := valueOfDigits [a, b]
    if a.isDigit && b.isDigit && !(rest.head?.any Char.isDigit) && low ≤ n && n ≤ high then
      some (n, rest)
    else none
  | _ => none

def takeChar? (c : Char) : List Char → Option (List Char)
  | d :: rest => if c == d then some rest else none
  | [] => none

/-- A year: four digits, or more when the first is not zero. -/
def takeYear? (cs : List Char) : Option (Int × List Char) :=
  let (negative, unsigned) := match cs with
    | '-' :: rest => (true, rest)
    | _ => (false, cs)
  let (digits, rest) := takeDigits unsigned
  let n := valueOfDigits digits
  if digits.length < 4 || (4 < digits.length && digits.head? == some '0') ||
      !Number.fitsUnsigned 63 n then none
  else some (applySign negative n, rest)

/-- Seconds, in units of `10 ^ -18`: two digits, and a point and places or nothing. -/
def takeSeconds? (cs : List Char) : Option (Nat × List Char) := do
  let (whole, rest) := takeDigits cs
  let (places, rest) := match rest with
    | '.' :: more => ('.' :: more.takeWhile Char.isDigit, more.dropWhile Char.isDigit)
    | more => ([], more)
  if whole.length != 2 || places == ['.'] then none
  else
    let units ← readUnits? (whole ++ places)
    if units < 60 * decimalScale then some (units, rest) else none

structure Clock where
  hour : Nat
  minute : Nat
  seconds : Nat
  deriving DecidableEq, Repr

/-- A time of day; hour 24 is not followed by both minutes and seconds. -/
def takeClock? (cs : List Char) : Option (Clock × List Char) := do
  let (hour, rest) ← takeTwo? 0 24 cs
  let (minute, rest) ← takeTwo? 0 59 (← takeChar? ':' rest)
  let (seconds, rest) ← takeSeconds? (← takeChar? ':' rest)
  if hour == 24 && minute != 0 && seconds != 0 then none else some (⟨hour, minute, seconds⟩, rest)

/-- The minutes of a time zone at the end of a text, if it has one. -/
def readZone? : List Char → Option (Option Int)
  | [] => some none
  | ['Z'] => some (some 0)
  | sign :: rest => do
    let (hour, rest) ← takeTwo? 0 14 rest
    let (minute, rest) ← takeTwo? 0 59 (← takeChar? ':' rest)
    if !rest.isEmpty || (hour == 14 && minute != 0) then none
    else if sign == '+' then some (some (60 * hour + minute))
    else if sign == '-' then some (some (-(60 * hour + minute)))
    else none

/-! ## Writing the parts -/

def yearText (year : Int) : List Char :=
  (if year < 0 then ['-'] else []) ++ padDigits 4 year.natAbs

def clockText (c : Clock) : List Char :=
  padDigits 2 c.hour ++ ':' :: padDigits 2 c.minute ++ ':' :: unitsText 2 c.seconds

def zoneText : Option Int → List Char
  | none => []
  | some minutes =>
    if minutes == 0 then ['Z']
    else
      (if minutes < 0 then '-' else '+') ::
        padDigits 2 (minutes.natAbs / 60) ++ ':' :: padDigits 2 (minutes.natAbs % 60)

/-! ## The datatypes -/

def takeDate? (cs : List Char) : Option ((Int × Nat × Nat) × List Char) := do
  let (year, rest) ← takeYear? cs
  let (month, rest) ← takeTwo? 1 12 (← takeChar? '-' rest)
  let (day, rest) ← takeTwo? 1 31 (← takeChar? '-' rest)
  if daysInMonth (isLeapYear year) month < day then none else some ((year, month, day), rest)

def dateText (year : Int) (month day : Nat) : List Char :=
  yearText year ++ '-' :: padDigits 2 month ++ '-' :: padDigits 2 day

def canonicalDate? (cs : List Char) : Option (List Char) := do
  let ((year, month, day), rest) ← takeDate? cs
  let zone ← readZone? rest
  some (dateText year month day ++ zoneText zone)

def canonicalTime? (cs : List Char) : Option (List Char) := do
  let (clock, rest) ← takeClock? cs
  let zone ← readZone? rest
  some (clockText { clock with hour := clock.hour % 24 } ++ zoneText zone)

def canonicalDateTime? (cs : List Char) : Option (List Char) := do
  let ((year, month, day), rest) ← takeDate? cs
  let (clock, rest) ← takeClock? (← takeChar? 'T' rest)
  let zone ← readZone? rest
  let (year, month, day) := if clock.hour == 24 then nextDay year month day else (year, month, day)
  some (dateText year month day ++ 'T' :: clockText { clock with hour := clock.hour % 24 } ++
    zoneText zone)

def canonicalYearMonth? (cs : List Char) : Option (List Char) := do
  let (year, rest) ← takeYear? cs
  let (month, rest) ← takeTwo? 1 12 (← takeChar? '-' rest)
  let zone ← readZone? rest
  some (yearText year ++ '-' :: padDigits 2 month ++ zoneText zone)

def canonicalYear? (cs : List Char) : Option (List Char) := do
  let (year, rest) ← takeYear? cs
  let zone ← readZone? rest
  some (yearText year ++ zoneText zone)

def canonicalMonthDay? : List Char → Option (List Char)
  | '-' :: '-' :: cs => do
    let (month, rest) ← takeTwo? 1 12 cs
    let (day, rest) ← takeTwo? 1 31 (← takeChar? '-' rest)
    let zone ← readZone? rest
    if daysInMonth true month < day then none
    else some ('-' :: '-' :: padDigits 2 month ++ '-' :: padDigits 2 day ++ zoneText zone)
  | _ => none

def canonicalMonth? : List Char → Option (List Char)
  | '-' :: '-' :: cs => do
    let (month, rest) ← takeTwo? 1 12 cs
    let zone ← readZone? rest
    some ('-' :: '-' :: padDigits 2 month ++ zoneText zone)
  | _ => none

def canonicalDay? : List Char → Option (List Char)
  | '-' :: '-' :: '-' :: cs => do
    let (day, rest) ← takeTwo? 1 31 cs
    let zone ← readZone? rest
    some ('-' :: '-' :: '-' :: padDigits 2 day ++ zoneText zone)
  | _ => none

end Crosswalk.Rdf
