import Crosswalk.Number.Width
import Crosswalk.Rdf.Datatype.Calendar
import Crosswalk.Rdf.Lexical
import Crosswalk.Toml.Basic

/-!
# Reading TOML

The lines of a document: headers, and keys with their values. Arrays and inline tables may be nested;
they are read by recursive descent, and as every call takes at least one character their number
bounds the depth.
-/

namespace Crosswalk.Toml

/-! ## Blanks and comments -/

def dropSpace (cs : List Char) : List Char :=
  cs.dropWhile fun c => c == ' ' || c == '\t'

/-- What a comment and a text on one line may hold. -/
def isPlain (c : Char) : Bool :=
  c == '\t' || (0x20 ≤ c.toNat && c.toNat != 0x7F)

def dropComment : List Char → List Char
  | '#' :: rest => rest.dropWhile isPlain
  | cs => cs

def takeLineEnd? : List Char → Option (List Char)
  | '\n' :: rest => some rest
  | '\r' :: '\n' :: rest => some rest
  | _ => none

/-- Drops blanks, comments and line ends; at most `fuel` lines. -/
def dropLines : Nat → List Char → List Char
  | 0, cs => cs
  | fuel + 1, cs =>
    let rest := dropComment (dropSpace cs)
    match takeLineEnd? rest with
    | some rest => dropLines fuel rest
    | none => rest

/-! ## Texts -/

def escape? (c : Char) (rest : List Char) : Option (Char × Nat) :=
  if c == '\'' then none else Rdf.textEscape? c rest

/-- How many blanks and line ends a backslash at the end of a line swallows. -/
def foldedLength? (cs : List Char) : Option Nat :=
  let space := cs.takeWhile fun c => c == ' ' || c == '\t'
  match takeLineEnd? (cs.drop space.length) with
  | some _ => some (cs.takeWhile fun c => c == ' ' || c == '\t' || c == '\n' || c == '\r').length
  | none => none

def takeLineText? (quote : Char) (escapes : Bool) : Nat → List Char → Option (List Char × List Char)
  | _, [] => none
  | skip + 1, _ :: rest => takeLineText? quote escapes skip rest
  | 0, c :: rest =>
    if c == quote then some ([], rest)
    else if escapes && c == '\\' then
      match rest with
      | e :: more => do
        let (decoded, digits) ← escape? e more
        let (text, after) ← takeLineText? quote escapes (digits + 1) rest
        some (decoded :: text, after)
      | [] => none
    else if isPlain c then
      (takeLineText? quote escapes 0 rest).map fun (text, after) => (c :: text, after)
    else none

/-- The inside of a text on several lines. Up to two quotation marks may stand before the closing
three. -/
def takeLongText? (quote : Char) (escapes : Bool) : Nat → List Char → Option (List Char × List Char)
  | _, [] => none
  | skip + 1, _ :: rest => takeLongText? quote escapes skip rest
  | 0, c :: rest =>
    if c == quote && [quote, quote].isPrefixOf rest then
      let more := (rest.drop 2).takeWhile (· == quote)
      let inside := more.take 2
      some (inside, (rest.drop 2).drop inside.length)
    else if escapes && c == '\\' then
      match foldedLength? rest with
      | some n => takeLongText? quote escapes n rest
      | none =>
        match rest with
        | e :: more => do
          let (decoded, digits) ← escape? e more
          let (text, after) ← takeLongText? quote escapes (digits + 1) rest
          some (decoded :: text, after)
        | [] => none
    else if isPlain c || c == '\n' || (c == '\r' && rest.head? == some '\n') then
      (takeLongText? quote escapes 0 rest).map fun (text, after) => (c :: text, after)
    else none

def takeText? (quote : Char) (cs : List Char) : Option (String × List Char) :=
  let escapes := quote == '"'
  let found :=
    if [quote, quote].isPrefixOf cs then
      let inside := cs.drop 2
      takeLongText? quote escapes 0 ((takeLineEnd? inside).getD inside)
    else takeLineText? quote escapes 0 cs
  found.map fun (text, rest) => (String.ofList text, rest)

/-! ## Keys -/

def isBareKeyChar (c : Char) : Bool :=
  c.isAlphanum || c == '_' || c == '-'

def takeSimpleKey? (cs : List Char) : Option (String × List Char) :=
  match cs with
  | '"' :: rest =>
    (takeLineText? '"' true 0 rest).map fun (text, rest) => (String.ofList text, rest)
  | '\'' :: rest =>
    (takeLineText? '\'' false 0 rest).map fun (text, rest) => (String.ofList text, rest)
  | cs =>
    let key := cs.takeWhile isBareKeyChar
    if key.isEmpty then none else some (String.ofList key, cs.drop key.length)

def takeKey? : Nat → List Char → Option (List String × List Char)
  | 0, _ => none
  | fuel + 1, cs => do
    let (first, rest) ← takeSimpleKey? (dropSpace cs)
    match dropSpace rest with
    | '.' :: rest =>
      let (others, rest) ← takeKey? fuel rest
      some (first :: others, rest)
    | rest => some ([first], rest)

/-! ## Numbers, dates and words -/

/-- The digits of a number without the underscores, each of which stands between two digits. -/
def joinDigits? (admits : Char → Bool) (cs : List Char) : Option (List Char) :=
  let groups := Text.splitChars ['_'] cs
  if groups.all fun g => !g.isEmpty && g.all admits then some groups.flatten else none

def valueIn (base : Nat) (digits : List Char) : Nat :=
  digits.foldl (fun n c => base * n + Rdf.hexValue c) 0

def inRange? (n : Int) : Option Toml :=
  if Number.fitsSigned 64 n then some (.integer n) else none

/-- Decimal digits that do not begin with a needless zero. -/
def wholeDigits? (cs : List Char) : Option (List Char) := do
  let digits ← joinDigits? Char.isDigit cs
  if 1 < digits.length && digits.head? == some '0' then none else some digits

def isOctal (c : Char) : Bool :=
  '0' ≤ c && c ≤ '7'

def isBinary (c : Char) : Bool :=
  c == '0' || c == '1'

def readInteger? (cs : List Char) : Option Toml :=
  match cs with
  | '0' :: 'x' :: digits =>
    (joinDigits? Rdf.isHexDigit digits).bind fun ds => inRange? (valueIn 16 ds)
  | '0' :: 'o' :: digits => (joinDigits? isOctal digits).bind fun ds => inRange? (valueIn 8 ds)
  | '0' :: 'b' :: digits => (joinDigits? isBinary digits).bind fun ds => inRange? (valueIn 2 ds)
  | cs => do
    let (negative, unsigned) := Rdf.takeSign cs
    let digits ← wholeDigits? unsigned
    inRange? (Rdf.applySign negative (valueIn 10 digits))

/-- A number with a point or an exponent, or one of the words for numbers. -/
def isFloat (cs : List Char) : Bool :=
  let (_, unsigned) := Rdf.takeSign cs
  let (mantissa, exponent) := (unsigned.takeWhile fun c => c != 'e' && c != 'E',
    unsigned.dropWhile fun c => c != 'e' && c != 'E')
  let whole := mantissa.takeWhile (· != '.')
  let places := mantissa.drop whole.length
  let placesOk := match places with
    | [] => !exponent.isEmpty
    | _ :: ds => (joinDigits? Char.isDigit ds).isSome
  let exponentOk := match exponent with
    | [] => true
    | _ :: e => (joinDigits? Char.isDigit (Rdf.takeSign e).2).isSome
  unsigned == "inf".toList || unsigned == "nan".toList ||
    ((wholeDigits? whole).isSome && placesOk && exponentOk)

def isTime (cs : List Char) : Bool :=
  match Rdf.takeClock? cs with
  | some (clock, []) => clock.hour < 24
  | _ => false

def isZonedTime (cs : List Char) : Bool :=
  match Rdf.takeClock? cs with
  | some (clock, rest) =>
    let zone := match rest with
      | ['z'] => ['Z']
      | rest => rest
    clock.hour < 24 && (Rdf.readZone? zone).isSome
  | none => false

def isDateTime (cs : List Char) : Bool :=
  isTime cs ||
    (cs.take 10).length == 10 && cs.head? != some '-' &&
      match Rdf.takeDate? (cs.take 10) with
      | some (_, []) =>
        match cs.drop 10 with
        | [] => true
        | t :: time => (t == 'T' || t == 't' || t == ' ') && isZonedTime time
      | _ => false

def readWord? (cs : List Char) : Option Toml :=
  if cs == "true".toList then some (.boolean true)
  else if cs == "false".toList then some (.boolean false)
  else
    match readInteger? cs with
    | some v => some v
    | none =>
      if isFloat cs then some .float
      else if isDateTime cs then some .dateTime
      else none

def isWordChar (c : Char) : Bool :=
  c.isAlphanum || "+-_.:".toList.contains c

/-- A word; a date may be followed by a blank and a time. -/
def takeWord? (cs : List Char) : Option (Toml × List Char) := do
  let word := cs.takeWhile isWordChar
  let rest := cs.drop word.length
  let time := match rest with
    | ' ' :: more => more.takeWhile isWordChar
    | _ => []
  if isDateTime word && isZonedTime time then
    some (.dateTime, rest.drop (time.length + 1))
  else
    let value ← readWord? word
    some (value, rest)

/-! ## Values -/

mutual

def close : Toml → Toml
  | .table _ entries => .table .inline (closeEntries entries)
  | v => v

def closeEntries : Entries → Entries
  | [] => []
  | (k, v) :: rest => (k, close v) :: closeEntries rest

end

mutual

def takeValue? : Nat → List Char → Option (Toml × List Char)
  | 0, _ => none
  | fuel + 1, cs =>
    match cs with
    | '"' :: rest => (takeText? '"' rest).map fun (t, rest) => (.string t, rest)
    | '\'' :: rest => (takeText? '\'' rest).map fun (t, rest) => (.string t, rest)
    | '[' :: rest => (takeItems? fuel rest).map fun (items, rest) => (.array items, rest)
    | '{' :: rest =>
      match dropSpace rest with
      | '}' :: rest => some (.table .inline [], rest)
      | rest =>
        (takeMembers? fuel [] rest).map fun (entries, rest) => (close (.table .inline entries), rest)
    | cs => takeWord? cs

def takeItems? : Nat → List Char → Option (List Toml × List Char)
  | 0, _ => none
  | fuel + 1, cs =>
    match dropLines cs.length cs with
    | ']' :: rest => some ([], rest)
    | cs => do
      let (item, rest) ← takeValue? fuel cs
      match dropLines rest.length rest with
      | ',' :: rest =>
        let (others, rest) ← takeItems? fuel rest
        some (item :: others, rest)
      | ']' :: rest => some ([item], rest)
      | _ => none

def takeMembers? : Nat → Entries → List Char → Option (Entries × List Char)
  | 0, _, _ => none
  | fuel + 1, entries, cs => do
    let (key, rest) ← takeKey? cs.length cs
    match rest with
    | '=' :: rest =>
      let (value, rest) ← takeValue? fuel (dropSpace rest)
      let entries ← assign? value key entries
      match dropSpace rest with
      | ',' :: rest => takeMembers? fuel entries rest
      | '}' :: rest => some (entries, rest)
      | _ => none
    | _ => none

end

/-! ## Lines -/

def takeHeader? (closing cs : List Char) : Option (List String × List Char) := do
  let (path, rest) ← takeKey? cs.length cs
  if closing.isPrefixOf rest then some (path, rest.drop closing.length) else none

/-- What stands on a line that is not blank: the path of the table from there on, the tables, and the
rest. -/
def takeLine? (path : List String) (root : Entries) (cs : List Char) :
    Option (List String × Entries × List Char) :=
  match cs with
  | '[' :: '[' :: rest => do
    let (path, rest) ← takeHeader? [']', ']'] rest
    some (path, ← beginListed? path root, rest)
  | '[' :: rest => do
    let (path, rest) ← takeHeader? [']'] rest
    some (path, ← beginTable? path root, rest)
  | cs => do
    let (key, rest) ← takeKey? cs.length cs
    match rest with
    | '=' :: rest =>
      let (value, rest) ← takeValue? (2 * cs.length + 2) (dropSpace rest)
      some (path, ← assignUnder? value key path root, rest)
    | _ => none

def readLines? : Nat → List String → Entries → List Char → Option Entries
  | 0, _, _, _ => none
  | fuel + 1, path, root, cs =>
    match dropLines cs.length cs with
    | [] => some root
    | line => do
      let (path, root, rest) ← takeLine? path root line
      match dropComment (dropSpace rest) with
      | [] => some root
      | rest => readLines? fuel path root (← takeLineEnd? rest)

def dropMark : List Char → List Char
  | '\uFEFF' :: cs => cs
  | cs => cs

def read? (text : String) : Option Entries :=
  readLines? (text.length + 1) [] [] (dropMark text.toList)

end Crosswalk.Toml
