/-!
# Trees of an XML document

Elements, texts, comments and processing instructions, with namespaces already resolved: the name
of an element or of an attribute carries the namespace itself, and an element keeps the
declarations written on it, because they decide which alias its name is shown with.
-/

namespace Crosswalk.Xml

def xmlNamespace : String := "http://www.w3.org/XML/1998/namespace"

/-- The namespace of declarations themselves; nothing may be bound to it. -/
def xmlnsNamespace : String := "http://www.w3.org/2000/xmlns/"

structure ExpandedName where
  space : Option String
  localName : String
  deriving DecidableEq, Repr, Inhabited

structure Attribute where
  name : ExpandedName
  value : String
  deriving DecidableEq, Repr, Inhabited

/-- A namespace declaration; the one without an alias declares the default namespace. -/
structure Binding where
  alias? : Option String
  uri : String
  deriving DecidableEq, Repr, Inhabited

inductive Content where
  | element (name : ExpandedName) (bindings : List Binding) (attributes : List Attribute)
      (children : List Content)
  | text (value : String)
  | comment (value : String)
  | instruction (target : String) (data : Option String)
  deriving Repr, Inhabited

structure Document where
  children : List Content
  deriving Repr, Inhabited

namespace Content

def isElement : Content → Bool
  | element .. => true
  | _ => false

def isText : Content → Bool
  | text _ => true
  | _ => false

def isComment : Content → Bool
  | comment _ => true
  | _ => false

def children : Content → List Content
  | element _ _ _ cs => cs
  | _ => []

def attributes : Content → List Attribute
  | element _ _ as _ => as
  | _ => []

def bindings : Content → List Binding
  | element _ bs _ _ => bs
  | _ => []

def name? : Content → Option ExpandedName
  | element n _ _ _ => some n
  | _ => none

/-- Whether two siblings are counted together in a positional step: elements of one name, or two
nodes of one other kind. -/
def sameKind : Content → Content → Bool
  | element n _ _ _, element m _ _ _ => n == m
  | text _, text _ => true
  | comment _, comment _ => true
  | instruction _ _, instruction _ _ => true
  | _, _ => false

mutual

def innerText : Content → String
  | element _ _ _ cs => innerTexts cs
  | text t => t
  | comment _ => ""
  | instruction _ _ => ""

def innerTexts : List Content → String
  | [] => ""
  | c :: cs => c.innerText ++ innerTexts cs

end

/-- The string value of a node: a comment has its own text, any other node the texts inside it. -/
def stringValue : Content → String
  | comment t => t
  | c => c.innerText

def attribute? (c : Content) (name : ExpandedName) : Option String :=
  (c.attributes.find? fun a => a.name == name).map (·.value)

def plainAttribute? (c : Content) (localName : String) : Option String :=
  c.attribute? ⟨none, localName⟩

/-- The local name of an element, and nothing for other nodes. -/
def localName (c : Content) : String :=
  (c.name?.map (·.localName)).getD ""

/-- Whether the node is an element of that local name, in whatever namespace. -/
def isNamed (c : Content) (localName : String) : Bool :=
  (c.name?.map (·.localName)) == some localName

def elements (c : Content) : List Content :=
  c.children.filter isElement

def elementsNamed (c : Content) (localName : String) : List Content :=
  c.children.filter (isNamed · localName)

/-- The text at the start of an element: its first child, when that is a text. -/
def leadingText (c : Content) : String :=
  match c.children with
  | text t :: _ => t
  | _ => ""

end Content

/-- The first element of the document, its only one in a document that was read. -/
def Document.rootElement? (d : Document) : Option Content :=
  d.children.find? Content.isElement

/-- The declarations in scope of an element: its own in order, then the inherited ones whose alias
it does not declare again. -/
def extendScope (own inherited : List Binding) : List Binding :=
  own ++ inherited.filter fun b => !own.any fun o => o.alias? == b.alias?

/-- The alias that a namespace is shown with: the one of the first declaration of it, so none when
that declares the default namespace. -/
def aliasOf? (scope : List Binding) (uri : String) : Option String :=
  if uri == xmlNamespace then some "xml"
  else (scope.find? fun b => b.uri == uri).bind (·.alias?)

def ExpandedName.display (scope : List Binding) (n : ExpandedName) : String :=
  match n.space.bind (aliasOf? scope) with
  | some a => if a.isEmpty then n.localName else a ++ ":" ++ n.localName
  | none => n.localName

end Crosswalk.Xml
