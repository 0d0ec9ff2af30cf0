import Crosswalk.Error
import Crosswalk.Table
import Crosswalk.Text.Blank
import Crosswalk.Text.Search

/-!
# Namespace aliases

The table of aliases that types, relationships, named graphs and path expressions are written with.
Five aliases are always in it; a document adds its own and may redefine them.
-/

namespace Crosswalk

structure Namespaces where
  table : Table String
  deriving DecidableEq, Repr

namespace Namespaces

def rdf : String := "http://www.w3.org/1999/02/22-rdf-syntax-ns#"
def rdfs : String := "http://www.w3.org/2000/01/rdf-schema#"
def xsd : String := "http://www.w3.org/2001/XMLSchema#"
def skos : String := "http://www.w3.org/2004/02/skos/core#"
def owl : String := "http://www.w3.org/2002/07/owl#"

def builtin : Namespaces :=
  ⟨.ofList [("rdf", rdf), ("rdfs", rdfs), ("xsd", xsd), ("skos", skos), ("owl", owl)]⟩

instance : Inhabited Namespaces := ⟨builtin⟩

def insert (ns : Namespaces) (qualifier iri : String) : Namespaces :=
  ⟨ns.table.insert qualifier iri⟩

def get? (ns : Namespaces) (qualifier : String) : Option String :=
  ns.table.get? qualifier

def toList (ns : Namespaces) : List (String × String) :=
  ns.table.entries

/-- Whether a value counts as an absolute IRI, which takes no namespace. -/
def isAbsolute (value : String) : Bool :=
  Text.occurs "://" value || Text.startsWith "urn:" value || Text.startsWith "uuid:" value

/-- The text between angle brackets that stand around it. -/
def unwrap? (name : String) : Option String :=
  (Text.dropStart? "<" name).bind (Text.dropEnd? ">")

/-- The IRI that a name stands for: a name in angle brackets and an absolute IRI stand for themselves,
any other name for the namespace of its alias with its local part appended. -/
def expand (ns : Namespaces) (name : String) : Except SetupError String :=
  let name := Text.trim name
  match unwrap? name with
  | some iri => .ok iri
  | none =>
    if isAbsolute name then .ok name
    else
      match Text.cut? ":" name with
      | some (a, base) =>
        match ns.get? a with
        | some iri => .ok (iri ++ base)
        | none => .error (.unknownAlias a name)
      | none => .error (.unknownAlias "" name)

end Namespaces

end Crosswalk
