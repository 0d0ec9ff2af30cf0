import Crosswalk.Rdf.Term
import Crosswalk.Xml.DocumentType

/-!
# Reading RDF/XML

Elements in turn describe resources and properties. A resource is named by an attribute or is a
blank node; each of its further attributes and each element in it is a property. The value of a property is
named by an attribute, or it is the resource or the text that the element holds. Language and base
are inherited. The entities of a document type may stand in for texts.
-/

namespace Crosswalk.Rdf.XmlReader

open Crosswalk.Xml (Content Attribute ExpandedName)

/-! ## Names and attributes -/

def rdfName (name : String) : ExpandedName :=
  ⟨some Namespaces.rdf, name⟩

def xmlName (name : String) : ExpandedName :=
  ⟨some Xml.xmlNamespace, name⟩

def iriOf? (n : ExpandedName) : Option Iri :=
  n.space.bind fun space => Iri.ofText? (space ++ n.localName)

def rdfIri? (name : String) : Option Iri :=
  Iri.ofText? (Namespaces.rdf ++ name)

structure Inherited where
  language? : Option String
  base? : Option Iri
  deriving Repr

def Inherited.inside? (i : Inherited) (c : Content) : Option Inherited := do
  let language? ← match c.attribute? (xmlName "lang") with
    | none => some i.language?
    | some "" => some none
    | some l => (languageTag? l).map some
  let base? ← match c.attribute? (xmlName "base") with
    | none => some i.base?
    | some b => (Iri.resolve? i.base? b).map some
  some ⟨language?, base?⟩

def syntaxNames : List String :=
  ["about", "ID", "nodeID", "resource", "datatype", "parseType"]

def isForbidden (n : ExpandedName) : Bool :=
  n.space == some Namespaces.rdf && ["bagID", "aboutEach", "aboutEachPrefix", "li"].contains n.localName

def isProperty (a : Attribute) : Bool :=
  match a.name.space with
  | none => false
  | some space =>
    space != Xml.xmlNamespace && !(space == Namespaces.rdf && syntaxNames.contains a.name.localName)

/-! ## Statements -/

structure ReadState where
  blanks : Nat
  ids : List Iri
  triples : List Triple

def addTriple (st : ReadState) (t : Triple) : ReadState :=
  { st with triples := st.triples ++ [t] }

/-- A blank node of its own. No blank node of the document has such a label. -/
def freshBlank (st : ReadState) : Term × ReadState :=
  (.blank ("-" ++ toString st.blanks), { st with blanks := st.blanks + 1 })

def textLiteral (i : Inherited) (text : String) : Literal :=
  match i.language? with
  | some l => .tagged text l
  | none => .plain text

/-- The IRI of an identifier, which no other element has. -/
def takeId? (i : Inherited) (st : ReadState) (id : String) : Option (Iri × ReadState) := do
  let iri ← Iri.resolve? i.base? ("#" ++ id)
  if st.ids.contains iri then none else some (iri, { st with ids := iri :: st.ids })

def attributeTriples? (i : Inherited) (subject : Term) (c : Content) (st : ReadState) :
    Option ReadState :=
  (c.attributes.filter isProperty).foldlM (fun st a => do
    if isForbidden a.name then none
    else
      let predicate ← iriOf? a.name
      let object : Term ←
        if a.name == rdfName "type" then (Iri.resolve? i.base? a.value).map .iri
        else some (.literal (textLiteral i a.value))
      some (addTriple st ⟨subject, predicate, object⟩)) st

/-- The four statements that describe a statement. -/
def reify? (statement : Iri) (t : Triple) (st : ReadState) : Option ReadState := do
  let described (name : String) (object : Term) : Option Triple := do
    some ⟨.iri statement, ← rdfIri? name, object⟩
  some { st with triples := st.triples ++ [
    ← described "type" (.iri (← rdfIri? "Statement")), ← described "subject" t.subject,
    ← described "predicate" (.iri t.predicate), ← described "object" t.object] }

def addProperty? (i : Inherited) (c : Content) (t : Triple) (st : ReadState) : Option ReadState :=
  match c.attribute? (rdfName "ID") with
  | none => some (addTriple st t)
  | some id => do
    let (statement, st) ← takeId? i st id
    reify? statement t (addTriple st t)

def nodeOf? (i : Inherited) (c : Content) (st : ReadState) : Option (Term × ReadState) :=
  match c.attribute? (rdfName "about"), c.attribute? (rdfName "ID"),
      c.attribute? (rdfName "nodeID") with
  | some about, none, none => (Iri.resolve? i.base? about).map fun iri => (.iri iri, st)
  | none, some id, none => (takeId? i st id).map fun (iri, st) => (.iri iri, st)
  | none, none, some label => some (.blank label, st)
  | none, none, none => some (freshBlank st)
  | _, _, _ => none

def valueOf? (i : Inherited) (c : Content) : Option (Option Term) :=
  match c.attribute? (rdfName "resource"), c.attribute? (rdfName "nodeID") with
  | some r, none => (Iri.resolve? i.base? r).map fun iri => some (.iri iri)
  | none, some label => some (some (.blank label))
  | none, none => some none
  | _, _ => none

/-- The property that an element stands for, and the number of the next list member. -/
def propertyOf? (name : ExpandedName) (member : Nat) : Option (Iri × Nat) :=
  if name == rdfName "li" then (rdfIri? ("_" ++ toString member)).map (·, member + 1)
  else if name == rdfName "Description" || isForbidden name ||
      (name.space == some Namespaces.rdf && ("RDF" :: syntaxNames).contains name.localName) then none
  else (iriOf? name).map (·, member)

/-! ## Literals that hold elements -/

mutual

def innerXml : Content → String
  | .element name bindings attributes children =>
    let declared := bindings.map fun b =>
      " xmlns" ++ ((b.alias?.map (":" ++ ·)).getD "") ++ "=\"" ++ b.uri ++ "\""
    let written := attributes.map fun a => " " ++ a.name.display bindings ++ "=\"" ++ a.value ++ "\""
    "<" ++ name.display bindings ++ String.join declared ++ String.join written ++ ">" ++
      innerXmls children ++ "</" ++ name.display bindings ++ ">"
  | .text t => t
  | .comment t => "<!--" ++ t ++ "-->"
  | .instruction target data? => "<?" ++ target ++ ((data?.map (" " ++ ·)).getD "") ++ "?>"

def innerXmls : List Content → String
  | [] => ""
  | c :: cs => innerXml c ++ innerXmls cs

end

def isBlankContent : Content → Bool
  | .text t => Text.isBlankText t
  | .element .. => false
  | _ => true

/-! ## Elements -/

def literalOf? (i : Inherited) (c : Content) : Option Literal :=
  match c.attribute? (rdfName "datatype") with
  | some d => (Iri.resolve? i.base? d).map (.ofTyped c.innerText ·)
  | none => some (textLiteral i c.innerText)

mutual

def readNode? (i : Inherited) (st : ReadState) : Content → Option (Term × ReadState)
  | c@(.element name _ _ children) => do
    let i ← i.inside? c
    if isForbidden name || (name.space == some Namespaces.rdf &&
        ("RDF" :: syntaxNames).contains name.localName) then none
    else
      let (node, st) ← nodeOf? i c st
      let st ←
        if name == rdfName "Description" then some st
        else do
          let type ← iriOf? name
          some (addTriple st ⟨node, ← rdfIri? "type", .iri type⟩)
      let st ← attributeTriples? i node c st
      let st ← readProperties? i node 1 st children
      some (node, st)
  | _ => none

def readProperties? (i : Inherited) (subject : Term) (member : Nat) (st : ReadState) :
    List Content → Option ReadState
  | [] => some st
  | c :: rest =>
    match c with
    | .element name bs as children => do
      let (predicate, member) ← propertyOf? name member
      let st ← readProperty? i subject predicate st (.element name bs as children)
      readProperties? i subject member st rest
    | c => if isBlankContent c then readProperties? i subject member st rest else none

def readProperty? (i : Inherited) (subject : Term) (predicate : Iri) (st : ReadState) :
    Content → Option ReadState
  | c@(.element _ _ _ children) => do
    let i ← i.inside? c
    match c.attribute? (rdfName "parseType") with
    | some "Resource" =>
      let (node, st) := freshBlank st
      let st ← addProperty? i c ⟨subject, predicate, node⟩ st
      readProperties? i node 1 st children
    | some "Collection" =>
      let (head, st) ← readMembers? i st children
      addProperty? i c ⟨subject, predicate, head⟩ st
    | some _ =>
      let datatype ← rdfIri? "XMLLiteral"
      addProperty? i c ⟨subject, predicate, .literal (.typed (innerXmls children) datatype)⟩ st
    | none =>
      let named? ← valueOf? i c
      let describes := c.attributes.any isProperty
      if named?.isSome || (describes && children.all isBlankContent) then
        if !children.all isBlankContent then none
        else
          let (node, st) := match named? with
            | some node => (node, st)
            | none => freshBlank st
          let st ← addProperty? i c ⟨subject, predicate, node⟩ st
          attributeTriples? i node c st
      else if children.any Content.isElement then
        let (node, st) ← readOnly? i st children
        addProperty? i c ⟨subject, predicate, node⟩ st
      else
        let literal ← literalOf? i c
        addProperty? i c ⟨subject, predicate, .literal literal⟩ st
  | _ => none

def readOnly? (i : Inherited) (st : ReadState) : List Content → Option (Term × ReadState)
  | [] => none
  | c :: rest =>
    if c.isElement then
      if rest.all isBlankContent then readNode? i st c else none
    else if isBlankContent c then readOnly? i st rest
    else none

def readMembers? (i : Inherited) (st : ReadState) : List Content → Option (Term × ReadState)
  | [] => (rdfIri? "nil").map fun nil => (.iri nil, st)
  | c :: rest =>
    if c.isElement then do
      let (member, st) ← readNode? i st c
      let (node, st) := freshBlank st
      let st := addTriple st ⟨node, ← rdfIri? "first", member⟩
      let (others, st) ← readMembers? i st rest
      some (node, addTriple st ⟨node, ← rdfIri? "rest", others⟩)
    else if isBlankContent c then readMembers? i st rest
    else none

end

def readNodes? (i : Inherited) (st : ReadState) : List Content → Option ReadState
  | [] => some st
  | c :: rest =>
    if c.isElement then do
      let (_, st) ← readNode? i st c
      readNodes? i st rest
    else if isBlankContent c then readNodes? i st rest
    else none

/-- The statements of a text. A text without anything in it has none. -/
def read? (text : String) : Option (List Triple) :=
  if Text.isBlankText text then some []
  else do
    let document ← Xml.Document.read? (← Xml.DocumentType.resolve? text)
    let root ← document.rootElement?
    let start : ReadState := ⟨0, [], []⟩
    if root.name? == some (rdfName "RDF") then do
      let i ← Inherited.inside? ⟨none, none⟩ root
      let st ← readNodes? i start root.children
      some st.triples
    else
      let (_, st) ← readNode? ⟨none, none⟩ start root
      some st.triples

end Crosswalk.Rdf.XmlReader
