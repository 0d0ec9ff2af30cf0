import Crosswalk.Rdf.Graph
import Crosswalk.Vocabulary.Closure

/-!
# Vocabularies

Terms that are broader or narrower than others, or that mean the same. A vocabulary is either a
table of declared pairs of texts, or a set of SKOS statements. In the latter a term is a concept, named by its
IRI or by a preferred label, and what is reached from it is given by both.

Broader and narrower are two directions of one relation, and all three relations are followed over
any number of steps.
-/

namespace Crosswalk

open Crosswalk.Rdf (Iri Term Triple)

inductive Vocabulary where
  /-- Pairs of a term and a broader one, and pairs of equivalent terms. -/
  | declared (broader exact : List (String × String))
  | concepts (statements : List Triple)
  deriving Repr, Inhabited

namespace Vocabulary

/-! ## SKOS statements -/

def isSkos (name : String) (i : Iri) : Bool :=
  i.text == Namespaces.skos ++ name

def related (statements : List Triple) (name : String) : List (Term × Term) :=
  (statements.filter fun t => isSkos name t.predicate).map fun t => (t.subject, t.object)

/-- The concepts that a term may name: those with that preferred label, and the one of that IRI. -/
def conceptsOf (statements : List Triple) (term : String) : List Term :=
  let labelled := (related statements "prefLabel").filter fun (_, l) => l.text? == some term
  labelled.map (·.1) ++ ((Iri.ofText? term).map Term.iri).toList

/-- What a term is given by: the text of its own, if it has one, and the texts of its labels. -/
def textsOf (statements : List Triple) (t : Term) : List String :=
  let labels := (related statements "prefLabel").filter fun (c, _) => c == t
  t.text?.toList ++ labels.filterMap fun (_, l) => l.text?

def reachedTexts (statements : List Triple) (pairs : List (Term × Term)) (term : String) :
    List String :=
  let reached := reachedFrom (conceptsOf statements term) pairs
  Text.distinct (reached.flatMap (textsOf statements))

def broaderPairs (statements : List Triple) : List (Term × Term) :=
  related statements "broader" ++ reversed (related statements "narrower")

/-- The pairs of concepts that match, in both directions. -/
def matchPairs (statements : List Triple) : List (Term × Term) :=
  related statements "exactMatch" ++ reversed (related statements "exactMatch")

/-! ## Questions -/

def broaderTerms (v : Vocabulary) (term : String) : List String :=
  match v with
  | declared broader _ => Text.distinct (reachedFrom [term] broader)
  | concepts statements => reachedTexts statements (broaderPairs statements) term

def narrowerTerms (v : Vocabulary) (term : String) : List String :=
  match v with
  | declared broader _ => Text.distinct (reachedFrom [term] (reversed broader))
  | concepts statements => reachedTexts statements (reversed (broaderPairs statements)) term

/-- The terms that mean the same as a term, in order. A declared table does not list the term itself. -/
def exactTerms (v : Vocabulary) (term : String) : List String :=
  match v with
  | declared _ exact =>
    (Text.distinct (reachedFrom [term] (exact ++ reversed exact))).filter fun t => t != term
  | concepts statements => reachedTexts statements (matchPairs statements) term

end Vocabulary

end Crosswalk
