import Crosswalk.Rdf.Format
import Crosswalk.Rdf.Graph

/-!
# Written graphs

A document is what is written of a graph in some format: the statements, without their graphs where
the format has none, and the aliases. A statement that stands in two graphs is then written twice.
Making a document can fail; its text cannot.
-/

namespace Crosswalk.Rdf

structure Document where
  format : Format
  aliases : List (String × Iri)
  statements : List Quad
  deriving DecidableEq, Repr

namespace Document

/-! ## Making a document -/

/-- The terms of the syntax of RDF/XML, which cannot be properties in it. -/
def reservedNames : List String :=
  ["Description", "RDF", "ID", "about", "parseType", "resource", "nodeID", "datatype", "bagID",
    "aboutEach", "aboutEachPrefix"]

def isReserved (i : Iri) : Bool :=
  reservedNames.any fun name => i.text == Namespaces.rdf ++ name

def checkAliases : List (String × String) → Except GraphError (List (String × Iri))
  | [] => .ok []
  | (a, text) :: rest =>
    match Iri.ofText? text with
    | some iri => (checkAliases rest).map ((a, iri) :: ·)
    | none => .error (.invalidAlias a)

def flatten (format : Format) (q : Quad) : Quad :=
  if format.keepsGraphs then q else { q with graph? := none }

def ofGraph (format : Format) (ns : Namespaces) (g : Graph) : Except GraphError Document := do
  let aliases ← if format.writesAliases then checkAliases ns.toList else .ok []
  if format == .rdfXml && g.quads.any fun q => isReserved q.predicate then .error .unwritable
  else .ok ⟨format, aliases, g.quads.map (flatten format)⟩

def lines (d : Document) : List String :=
  Text.sorted (d.statements.map Quad.line)

/-! ## Turtle and TriG -/

def isPlainName (s : String) : Bool :=
  match s.toList with
  | c :: rest => c.isAlpha && rest.all fun c => c.isAlphanum || c == '_' || c == '-'
  | [] => false

/-- The aliases that Turtle can declare as they are. -/
def plainAliases (d : Document) : List (String × Iri) :=
  d.aliases.filter fun (a, _) => isPlainName a

/-- An IRI, abbreviated where one of some aliases and a plain name make it up. -/
def shortIri (aliases : List (String × Iri)) (i : Iri) : String :=
  let short := aliases.findSome? fun (a, space) =>
    (Text.dropStart? space.text i.text).bind fun name =>
      if isPlainName name then some (a ++ ":" ++ name) else none
  short.getD i.line

def shortTerm (aliases : List (String × Iri)) : Term → String
  | .iri i => shortIri aliases i
  | .literal (.typed t datatype) => lineText t ++ "^^" ++ shortIri aliases datatype
  | t => t.line

def shortStatement (aliases : List (String × Iri)) (q : Quad) : String :=
  shortIri aliases q.subject ++ " " ++ shortIri aliases q.predicate ++ " " ++
    shortTerm aliases q.object ++ " ."

def aliasLine : String × Iri → String
  | (a, iri) => "@prefix " ++ a ++ ": " ++ iri.line ++ " ."

def graphStatement (aliases : List (String × Iri)) (q : Quad) : String :=
  match q.graph? with
  | some g => shortIri aliases g ++ " \x7b " ++ shortStatement aliases q ++ " \x7d"
  | none => shortStatement aliases q

/-! ## RDF/XML -/

def xmlChar (c : Char) : List Char :=
  match c with
  | '<' => "&lt;".toList
  | '>' => "&gt;".toList
  | '&' => "&amp;".toList
  | '"' => "&quot;".toList
  | '\r' => "&#13;".toList
  | '\n' => "&#10;".toList
  | '\t' => "&#9;".toList
  | c => [c]

def xmlText (s : String) : String :=
  String.ofList (s.toList.flatMap xmlChar)

def isNameStart (c : Char) : Bool :=
  c.isAlpha || c == '_' || 0xC0 ≤ c.toNat

def isNameChar (c : Char) : Bool :=
  isNameStart c || c.isDigit || c == '-' || c == '.'

def splitProperty (i : Iri) : String × String :=
  let cs := i.text.toList
  let tail := (cs.reverse.takeWhile isNameChar).reverse
  let name := tail.dropWhile fun c => !isNameStart c
  (String.ofList (cs.take (cs.length - name.length)), String.ofList name)

def propertyElement (q : Quad) : String :=
  let (space, name) := splitProperty q.predicate
  let opening := "<p:" ++ name ++ " xmlns:p=\"" ++ xmlText space ++ "\""
  let closing := "</p:" ++ name ++ ">"
  match q.object with
  | .iri i => opening ++ " rdf:resource=\"" ++ xmlText i.text ++ "\"/>"
  | .blank label => opening ++ " rdf:nodeID=\"" ++ label ++ "\"/>"
  | .literal (.plain t) => opening ++ ">" ++ xmlText t ++ closing
  | .literal (.tagged t language) =>
    opening ++ " xml:lang=\"" ++ language ++ "\">" ++ xmlText t ++ closing
  | .literal (.typed t datatype) =>
    opening ++ " rdf:datatype=\"" ++ xmlText datatype.text ++ "\">" ++ xmlText t ++ closing

def descriptionElement (q : Quad) : String :=
  "<rdf:Description rdf:about=\"" ++ xmlText q.subject.text ++ "\">" ++ propertyElement q ++
    "</rdf:Description>"

def xmlLines (d : Document) : List String :=
  ["<?xml version=\"1.0\" encoding=\"UTF-8\"?>",
    "<rdf:RDF xmlns:rdf=\"" ++ Namespaces.rdf ++ "\">"] ++
    d.statements.map descriptionElement ++ ["</rdf:RDF>"]

/-! ## The text -/

def textLines (d : Document) : List String :=
  match d.format with
  | .nTriples => d.statements.map Quad.line
  | .nQuads => d.statements.map Quad.line
  | .turtle =>
    d.plainAliases.map aliasLine ++ d.statements.map (shortStatement d.plainAliases)
  | .triG => d.plainAliases.map aliasLine ++ d.statements.map (graphStatement d.plainAliases)
  | .rdfXml => d.xmlLines

def text (d : Document) : String :=
  String.join (d.textLines.map (· ++ "\n"))

end Document

end Crosswalk.Rdf
