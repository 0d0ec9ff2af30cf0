/-!
# Output formats

The notations in which a graph can be written. Two of them keep named graphs; the others write
every statement as if it stood in the default graph.
-/

namespace Crosswalk.Rdf

inductive Format where
  | rdfXml
  | turtle
  | nTriples
  | nQuads
  | triG
  deriving DecidableEq, Repr, Inhabited

namespace Format

def all : List Format :=
  [rdfXml, turtle, nTriples, nQuads, triG]

def name : Format → String
  | rdfXml => "rdf-xml"
  | turtle => "turtle"
  | nTriples => "ntriples"
  | nQuads => "nquads"
  | triG => "trig"

def ofExactName? (s : String) : Option Format :=
  all.find? fun f => f.name == s

/-- The format of that name or short name, in any case. -/
def ofName? (s : String) : Except String Format :=
  let lower := String.ofList (s.toList.map Char.toLower)
  match lower with
  | "rdfxml" => .ok rdfXml
  | "xml" => .ok rdfXml
  | "ttl" => .ok turtle
  | "nt" => .ok nTriples
  | "nq" => .ok nQuads
  | _ =>
    match ofExactName? lower with
    | some f => .ok f
    | none => .error ("unknown output format \"" ++ lower ++ "\"")

def keepsGraphs : Format → Bool
  | nQuads => true
  | triG => true
  | _ => false

/-- Whether aliases are written, which then have to stand for valid IRIs. -/
def writesAliases : Format → Bool
  | nTriples => false
  | nQuads => false
  | _ => true

theorem ofExactName?_name (f : Format) : ofExactName? f.name = some f := by
  cases f <;> rfl

end Format

end Crosswalk.Rdf
