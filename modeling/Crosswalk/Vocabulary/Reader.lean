import Crosswalk.Rdf.NTriples
import Crosswalk.Rdf.Turtle.Reader
import Crosswalk.Rdf.XmlReader
import Crosswalk.Vocabulary.Basic

/-!
# Reading vocabularies

A vocabulary is read from SKOS statements in one of three notations. For a file, its extension says in
which.
-/

namespace Crosswalk

inductive VocabularyNotation where
  | nTriples
  | turtle
  | rdfXml
  deriving DecidableEq, Repr, Inhabited

namespace VocabularyNotation

def ofExtension? : String → Option VocabularyNotation
  | "ttl" => some turtle
  | "nt" => some nTriples
  | "rdf" => some rdfXml
  | "xml" => some rdfXml
  | "owl" => some rdfXml
  | _ => none

def read? : VocabularyNotation → String → Option (List Rdf.Triple)
  | nTriples => Rdf.NTriples.read?
  | turtle => Rdf.Turtle.read?
  | rdfXml => Rdf.XmlReader.read?

end VocabularyNotation

def distinctTriples (triples : List Rdf.Triple) : List Rdf.Triple :=
  triples.foldl (fun found t => if found.contains t then found else found ++ [t]) []

def Vocabulary.read (kind : VocabularyNotation) (text : String) :
    Except VocabularyError Vocabulary :=
  match kind.read? text with
  | some triples => .ok (.concepts (distinctTriples triples))
  | none => .error .malformed

/-- How many pairs or statements a vocabulary is made of. -/
def Vocabulary.size : Vocabulary → Nat
  | declared broader exact => broader.length + exact.length
  | concepts statements => statements.length

def fileName? (path : String) : Option String :=
  let parts := ((Text.split "/" path).filter fun p => !p.isEmpty).filter fun p => p != "."
  match parts.getLast? with
  | some name => if name == ".." then none else some name
  | none => none

/-- What follows the last point in the name of a file, unless the name begins with it. -/
def extension? (path : String) : Option String :=
  (fileName? path).bind fun name =>
    match (Text.split "." name).reverse with
    | last :: before :: more => if more.isEmpty && before.isEmpty then none else some last
    | _ => none

end Crosswalk
