import Crosswalk.Error
import Crosswalk.Rdf.Datatype
import Crosswalk.Rdf.Iri
import Crosswalk.Rdf.LanguageTag
import Crosswalk.Value

/-!
# Terms and statements

The terms that a graph holds. Their IRIs are valid by type, a language is a tag in lower case, and a
typed literal is in canonical form, so that two terms are equal exactly when a graph takes them for
one.
-/

namespace Crosswalk.Rdf

/-! ## Literals -/

inductive Literal where
  | plain (text : String)
  | tagged (text language : String)
  | typed (text : String) (datatype : Iri)
  deriving DecidableEq, Repr

namespace Literal

def text : Literal → String
  | plain t => t
  | tagged t _ => t
  | typed t _ => t

/-- The literal of a text and a datatype, in canonical form. A string is a plain literal. -/
def ofTyped (text : String) (datatype : Iri) : Literal :=
  if datatype.text == Namespaces.xsd ++ "string" then plain text
  else
    let (canonical, name) := canonicalTyped text datatype.text
    match Iri.ofText? name with
    | some iri => typed canonical iri
    | none => typed text datatype

end Literal

/-! ## Terms -/

inductive Term where
  | iri (iri : Iri)
  | blank (label : String)
  | literal (literal : Literal)
  deriving DecidableEq, Repr

namespace Term

def text? : Term → Option String
  | iri i => some i.text
  | blank _ => none
  | literal l => some l.text

end Term

structure Triple where
  subject : Term
  predicate : Iri
  object : Term
  deriving DecidableEq, Repr

/-- A statement of the output, in a named graph or in the default graph. -/
structure Quad where
  subject : Iri
  predicate : Iri
  object : Term
  graph? : Option Iri
  deriving DecidableEq, Repr

/-! ## Lines -/

def lineChar (c : Char) : List Char :=
  match c with
  | '\x08' => ['\\', 'b']
  | '\t' => ['\\', 't']
  | '\n' => ['\\', 'n']
  | '\x0c' => ['\\', 'f']
  | '\r' => ['\\', 'r']
  | '"' => ['\\', '"']
  | '\\' => ['\\', '\\']
  | c =>
    let n := c.toNat
    if n < 0x20 || n == 0x7F || n == 0xFFFE || n == 0xFFFF then
      let digits := Nat.toDigits 16 n
      '\\' :: 'u' :: (List.replicate (4 - digits.length) '0' ++ digits.map Char.toUpper)
    else [c]

def lineText (s : String) : String :=
  "\"" ++ String.ofList (s.toList.flatMap lineChar) ++ "\""

def Iri.line (i : Iri) : String :=
  "<" ++ i.text ++ ">"

def Literal.line : Literal → String
  | plain t => lineText t
  | tagged t language => lineText t ++ "@" ++ language
  | typed t datatype => lineText t ++ "^^" ++ datatype.line

def Term.line : Term → String
  | iri i => i.line
  | blank label => "_:" ++ label
  | literal l => l.line

def Quad.line (q : Quad) : String :=
  let graph := match q.graph? with
    | some g => " " ++ g.line
    | none => ""
  q.subject.line ++ " " ++ q.predicate.line ++ " " ++ q.object.line ++ graph ++ " ."

/-! ## Statements as they are made -/

/-- A statement whose terms have not been looked at. -/
structure Statement where
  subject : String
  predicate : String
  object : Value
  graph? : Option String
  deriving DecidableEq, Repr, Inhabited

def iriTerm (s : String) : Except GraphError Iri :=
  match Iri.ofText? s with
  | some i => .ok i
  | none => .error (.invalidTerm s)

def objectTerm : Value → Except GraphError Term
  | .uri s => (iriTerm s).map .iri
  | .literal t (some language) =>
    match languageTag? language with
    | some tag => .ok (.literal (.tagged t tag))
    | none => .error (.invalidTerm language)
  | .literal t none => .ok (.literal (.plain t))
  | .typed t datatype => (iriTerm datatype).map fun d => .literal (.ofTyped t d)

/-- The statement with its terms checked: graph, subject, predicate, object. -/
def Statement.quad (s : Statement) : Except GraphError Quad := do
  let graph? ← match s.graph? with
    | some g => (iriTerm g).map some
    | none => .ok none
  let subject ← iriTerm s.subject
  let predicate ← iriTerm s.predicate
  let object ← objectTerm s.object
  .ok ⟨subject, predicate, object, graph?⟩

end Crosswalk.Rdf
