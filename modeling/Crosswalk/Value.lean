/-!
# Values of the output

What an entity or a label becomes: a resource, a plain text with or without a language, or a text
with a datatype. Whether the IRIs and the language in it are well formed is only asked when a
value is placed in the graph.
-/

namespace Crosswalk

inductive Value where
  | uri (iri : String)
  | literal (text : String) (language? : Option String)
  | typed (text datatype : String)
  deriving DecidableEq, Repr, Inhabited

namespace Value

def text : Value → String
  | uri iri => iri
  | literal t _ => t
  | typed t _ => t

def isUri : Value → Bool
  | uri _ => true
  | _ => false

def kind : Value → String
  | uri _ => "uri"
  | literal _ _ => "literal"
  | typed _ _ => "typed literal"

end Value

end Crosswalk
