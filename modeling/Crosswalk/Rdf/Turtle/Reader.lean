import Crosswalk.Rdf.Term
import Crosswalk.Rdf.Turtle.Token

/-!
# Reading Turtle

Statements with shared subjects and predicates, abbreviated IRIs, and blank nodes and lists that
are written where they are used. The grammar is followed by recursive descent: every call takes at
least one token, so their number bounds the depth.
-/

namespace Crosswalk.Rdf.Turtle

/-- What is known while reading: aliases, the base of references, how many blank nodes were made, and
the statements so far. -/
structure ReadState where
  aliases : Table Iri
  base? : Option Iri
  blanks : Nat
  triples : List Triple

/-- A part of the grammar: it takes tokens, or fails. -/
abbrev Reading (α : Type) := List Token → ReadState → Option (α × List Token × ReadState)

def resolveName? (st : ReadState) (a base : String) : Option Iri := do
  let space ← st.aliases.get? a
  Iri.ofText? (space.text ++ base)

def addTriple (st : ReadState) (subject : Term) (predicate : Iri) (object : Term) : ReadState :=
  { st with triples := st.triples ++ [⟨subject, predicate, object⟩] }

/-- A blank node of its own. No blank node of the document has such a label. -/
def freshBlank (st : ReadState) : Term × ReadState :=
  (.blank ("-" ++ toString st.blanks), { st with blanks := st.blanks + 1 })

def rdfIri? (name : String) : Option Iri :=
  Iri.ofText? (Namespaces.rdf ++ name)

def schemaIri? (name : String) : Option Iri :=
  Iri.ofText? (Namespaces.xsd ++ name)

def readIri : Reading Iri
  | .reference t :: rest, st => do some (← Iri.resolve? st.base? t, rest, st)
  | .name a base :: rest, st => do some (← resolveName? st a base, rest, st)
  | _, _ => none

def readPredicate : Reading Iri
  | .word "a" :: rest, st => do some (← rdfIri? "type", rest, st)
  | tokens, st => readIri tokens st

def readLiteralEnd (text : String) : Reading Term
  | .language written :: rest, st => do
    let tag ← languageTag? written
    some (.literal (.tagged text tag), rest, st)
  | .typed :: rest, st => do
    let (datatype, rest, st) ← readIri rest st
    some (.literal (.ofTyped text datatype), rest, st)
  | rest, st => some (.literal (.plain text), rest, st)

def schemaLiteral? (name text : String) : Option Term :=
  (schemaIri? name).map fun d => .literal (.ofTyped text d)

def NumberKind.datatypeName : NumberKind → String
  | integer => "integer"
  | decimal => "decimal"
  | double => "double"

mutual

/-- An object, or a subject if it turns out to be no literal. -/
def readTerm : Nat → Reading Term
  | 0, _, _ => none
  | fuel + 1, tokens, st =>
    match tokens with
    | .text t :: rest => readLiteralEnd t rest st
    | .number kind digits :: rest => do some (← schemaLiteral? kind.datatypeName digits, rest, st)
    | .word "true" :: rest => do some (← schemaLiteral? "boolean" "true", rest, st)
    | .word "false" :: rest => do some (← schemaLiteral? "boolean" "false", rest, st)
    | .blank label :: rest => some (.blank label, rest, st)
    | .mark '[' :: rest =>
      let (node, st) := freshBlank st
      match rest with
      | .mark ']' :: rest => some (node, rest, st)
      | _ => do
        let ((), rest, st) ← readPredicates fuel node rest st
        match rest with
        | .mark ']' :: rest => some (node, rest, st)
        | _ => none
    | .mark '(' :: rest => readCollection fuel rest st
    | tokens => do
      let (i, rest, st) ← readIri tokens st
      some (.iri i, rest, st)

def readCollection : Nat → Reading Term
  | 0, _, _ => none
  | fuel + 1, tokens, st =>
    match tokens with
    | .mark ')' :: rest => do some (.iri (← rdfIri? "nil"), rest, st)
    | tokens => do
      let (member, rest, st) ← readTerm fuel tokens st
      let (node, st) := freshBlank st
      let st := addTriple st node (← rdfIri? "first") member
      let (others, rest, st) ← readCollection fuel rest st
      some (node, rest, addTriple st node (← rdfIri? "rest") others)

def readPredicates : Nat → Term → Reading Unit
  | 0, _, _, _ => none
  | fuel + 1, subject, tokens, st => do
    let (predicate, rest, st) ← readPredicate tokens st
    let ((), rest, st) ← readObjects fuel subject predicate rest st
    match rest with
    | .mark ';' :: _ =>
      match rest.dropWhile (· == .mark ';') with
      | .mark '.' :: after => some ((), .mark '.' :: after, st)
      | .mark ']' :: after => some ((), .mark ']' :: after, st)
      | after => readPredicates fuel subject after st
    | _ => some ((), rest, st)

def readObjects : Nat → Term → Iri → Reading Unit
  | 0, _, _, _, _ => none
  | fuel + 1, subject, predicate, tokens, st => do
    let (object, rest, st) ← readTerm fuel tokens st
    let st := addTriple st subject predicate object
    match rest with
    | .mark ',' :: rest => readObjects fuel subject predicate rest st
    | _ => some ((), rest, st)

end

/-- The statements about a subject. A subject that is written as a blank node with predicates needs no
others. -/
def readStatements (fuel : Nat) : Reading Unit := fun tokens st => do
  let (subject, rest, after) ← readTerm fuel tokens st
  match subject, rest with
  | .literal _, _ => none
  | _, .mark '.' :: rest =>
    match tokens with
    | .mark '[' :: .mark ']' :: _ => none
    | .mark '[' :: _ => some ((), rest, after)
    | _ => none
  | subject, rest => do
    let ((), rest, after) ← readPredicates fuel subject rest after
    match rest with
    | .mark '.' :: rest => some ((), rest, after)
    | _ => none

def readAlias (a reference : String) (st : ReadState) : Option ReadState := do
  let iri ← Iri.resolve? st.base? reference
  some { st with aliases := st.aliases.insert a iri }

def readBase (reference : String) (st : ReadState) : Option ReadState := do
  let iri ← Iri.resolve? st.base? reference
  some { st with base? := some iri }

def isWord (word text : String) : Bool :=
  String.ofList (text.toList.map Char.toLower) == word

def readAll (fuel : Nat) : Nat → List Token → ReadState → Option (List Triple)
  | _, [], st => some st.triples
  | 0, _, _ => none
  | left + 1, .directive "prefix" :: .name a "" :: .reference r :: .mark '.' :: rest, st => do
    readAll fuel left rest (← readAlias a r st)
  | left + 1, .directive "base" :: .reference r :: .mark '.' :: rest, st => do
    readAll fuel left rest (← readBase r st)
  | left + 1, .word w :: .name a "" :: .reference r :: rest, st => do
    if isWord "prefix" w then readAll fuel left rest (← readAlias a r st) else none
  | left + 1, .word w :: .reference r :: rest, st => do
    if isWord "base" w then readAll fuel left rest (← readBase r st) else none
  | left + 1, tokens, st => do
    let ((), rest, st) ← readStatements fuel tokens st
    readAll fuel left rest st

def read? (text : String) : Option (List Triple) := do
  let tokens ← tokens? text
  readAll (2 * tokens.length + 2) tokens.length tokens ⟨.empty, none, 0, []⟩

end Crosswalk.Rdf.Turtle
