import Crosswalk.Rdf.Lexical

/-!
# Tokens of Turtle

The text of a Turtle document as tokens. Blanks and comments between tokens are passed over. A point at
the end of a name or of a number is a token of its own.
-/

namespace Crosswalk.Rdf.Turtle

inductive NumberKind where
  | integer
  | decimal
  | double
  deriving DecidableEq, Repr

inductive Token where
  | reference (text : String)
  | name (qualifier base : String)
  | blank (label : String)
  | text (value : String)
  | language (tag : String)
  | number (kind : NumberKind) (digits : String)
  /-- A word without a colon: `a`, a boolean, or a directive as in SPARQL. -/
  | word (text : String)
  /-- A directive that begins with `@`. -/
  | directive (text : String)
  | mark (c : Char)
  | typed
  deriving DecidableEq, Repr

/-! ## Numbers -/

def takeExponent? : List Char → Option (List Char × List Char)
  | e :: cs =>
    if e == 'e' || e == 'E' then
      let (sign, cs) := match cs with
        | '+' :: rest => (['+'], rest)
        | '-' :: rest => (['-'], rest)
        | _ => ([], cs)
      let digits := cs.takeWhile Char.isDigit
      if digits.isEmpty then none else some (e :: sign ++ digits, cs.drop digits.length)
    else none
  | [] => none

/-- A point and places after it; a point is only part of the number if a digit or an exponent
follows. -/
def takePlaces : List Char → List Char × List Char
  | '.' :: cs =>
    let places := cs.takeWhile Char.isDigit
    if places.isEmpty && (takeExponent? cs).isNone then ([], '.' :: cs)
    else ('.' :: places, cs.drop places.length)
  | cs => ([], cs)

def takeNumber? (cs : List Char) : Option (Token × List Char) :=
  let (sign, cs) := match cs with
    | '+' :: rest => (['+'], rest)
    | '-' :: rest => (['-'], rest)
    | _ => ([], cs)
  let whole := cs.takeWhile Char.isDigit
  let (places, rest) := takePlaces (cs.drop whole.length)
  if whole.isEmpty && places.length ≤ 1 then none
  else
    match takeExponent? rest with
    | some (exponent, rest) =>
      some (.number .double (String.ofList (sign ++ whole ++ places ++ exponent)), rest)
    | none =>
      some (.number (if places.isEmpty then .integer else .decimal)
        (String.ofList (sign ++ whole ++ places)), rest)

/-! ## Names -/

/-- The characters that a backslash may stand before in a local name. -/
def localEscapes : List Char :=
  "_~.-!$&'()*+,;=/?#@%".toList

/-- A local name; `skip` counts characters already taken with an earlier one. -/
def takeLocal : Nat → List Char → List Char × List Char
  | _, [] => ([], [])
  | skip + 1, _ :: rest => takeLocal skip rest
  | 0, c :: rest =>
    match c, rest with
    | '%', a :: b :: _ =>
      if isHexDigit a && isHexDigit b then
        let (name, after) := takeLocal 2 rest
        ('%' :: a :: b :: name, after)
      else ([], c :: rest)
    | '\\', e :: _ =>
      if localEscapes.contains e then
        let (name, after) := takeLocal 1 rest
        (e :: name, after)
      else ([], c :: rest)
    | _, _ =>
      if isWordChar c || c == ':' || (c == '.' && continues rest) then
        let (name, after) := takeLocal 0 rest
        (c :: name, after)
      else ([], c :: rest)
where
  /-- Whether the name goes on after some points. -/
  continues (rest : List Char) : Bool :=
    match rest.dropWhile (· == '.') with
    | c :: _ => isWordChar c || c == ':' || c == '%' || c == '\\'
    | [] => false

def takeName? (cs : List Char) : Option (Token × List Char) :=
  let head := cs.takeWhile fun c => isWordChar c || c == '.'
  match cs.drop head.length with
  | ':' :: rest =>
    if head.head?.all isLetterChar && head.getLast? != some '.' then
      match rest with
      | '-' :: _ => some (.name (String.ofList head) "", rest)
      | _ =>
        let (base, after) := takeLocal 0 rest
        some (.name (String.ofList head) (String.ofList base), after)
    else none
  | rest =>
    let (word, after) := releasePoints head rest
    if word.isEmpty then none else some (.word (String.ofList word), after)

/-! ## Tokens -/

def takeQuoted? (quote : Char) (cs : List Char) : Option (Token × List Char) :=
  let (long, cs) := match cs with
    | a :: b :: rest => if a == quote && b == quote then (true, rest) else (false, cs)
    | _ => (false, cs)
  (takeText? quote long cs).map fun (t, rest) => (.text t, rest)

def atSign? (cs : List Char) : Option (Token × List Char) :=
  (takeLanguage? cs).map fun (tag, rest) =>
    if tag == "prefix" || tag == "base" then (.directive tag, rest) else (.language tag, rest)

def takeToken? (cs : List Char) : Option (Token × List Char) :=
  match cs with
  | '<' :: rest => (takeReference? rest).map fun (t, after) => (.reference t, after)
  | '"' :: rest => takeQuoted? '"' rest
  | '\'' :: rest => takeQuoted? '\'' rest
  | '@' :: rest => atSign? rest
  | '^' :: '^' :: rest => some (.typed, rest)
  | '_' :: ':' :: rest => (takeBlankLabel? rest).map fun (l, after) => (.blank l, after)
  | c :: rest =>
    if "[]();,".toList.contains c then some (.mark c, rest)
    else if c.isDigit || c == '+' || c == '-' then takeNumber? cs
    else if c == '.' then
      match takeNumber? cs with
      | some found => some found
      | none => some (.mark '.', rest)
    else takeName? cs
  | [] => none

def dropBlanks : Bool → List Char → List Char
  | _, [] => []
  | true, c :: rest => dropBlanks (!(c == '\n' || c == '\r')) rest
  | false, c :: rest =>
    if c == '#' then dropBlanks true rest
    else if c == ' ' || c == '\t' || c == '\n' || c == '\r' then dropBlanks false rest
    else c :: rest

def tokensFrom? : Nat → List Char → Option (List Token)
  | fuel, cs =>
    match dropBlanks false cs with
    | [] => some []
    | cs =>
      match fuel with
      | 0 => none
      | fuel + 1 => do
        let (token, rest) ← takeToken? cs
        let others ← tokensFrom? fuel rest
        some (token :: others)

def tokens? (text : String) : Option (List Token) :=
  tokensFrom? text.toList.length text.toList

end Crosswalk.Rdf.Turtle
