import Crosswalk.Rdf.Lexical
import Crosswalk.Rdf.Term

/-!
# Reading N-Triples

One statement on a line, with its terms written out in full. Blank lines and comments are passed
over.
-/

namespace Crosswalk.Rdf.NTriples

def dropSpace (cs : List Char) : List Char :=
  cs.dropWhile fun c => c == ' ' || c == '\t'

def isLineEnd (cs : List Char) : Bool :=
  match dropSpace cs with
  | [] => true
  | c :: _ => c == '#'

def takeIri? (cs : List Char) : Option (Iri × List Char) := do
  let (text, rest) ← takeReference? cs
  some (← Iri.ofText? text, rest)

def takeLiteralEnd? (text : String) : List Char → Option (Literal × List Char)
  | '@' :: cs => do
    let (written, rest) ← takeLanguage? cs
    let tag ← languageTag? written
    some (.tagged text tag, rest)
  | '^' :: '^' :: cs =>
    match dropSpace cs with
    | '<' :: cs => do
      let (datatype, rest) ← takeIri? cs
      some (.ofTyped text datatype, rest)
    | _ => none
  | cs => some (.plain text, cs)

def takeTerm? : List Char → Option (Term × List Char)
  | '<' :: cs => (takeIri? cs).map fun (i, rest) => (.iri i, rest)
  | '_' :: ':' :: cs => (takeBlankLabel? cs).map fun (l, rest) => (.blank l, rest)
  | '"' :: cs => do
    let (text, rest) ← takeText? '"' false cs
    let (literal, rest) ← takeLiteralEnd? text rest
    some (.literal literal, rest)
  | _ => none

def readLine? (cs : List Char) : Option Triple := do
  let (subject, rest) ← takeTerm? (dropSpace cs)
  let (predicate, rest) ← takeTerm? (dropSpace rest)
  let (object, rest) ← takeTerm? (dropSpace rest)
  match dropSpace rest, subject, predicate with
  | '.' :: _, .literal _, _ => none
  | '.' :: rest, subject, .iri predicate =>
    if isLineEnd rest then some ⟨subject, predicate, object⟩ else none
  | _, _, _ => none

def linesOf (cs : List Char) : List (List Char) :=
  Text.splitChars ['\n'] (cs.map fun c => if c == '\r' then '\n' else c)

def read? (text : String) : Option (List Triple) :=
  ((linesOf text.toList).filter fun l => !isLineEnd l).mapM readLine?

end Crosswalk.Rdf.NTriples
