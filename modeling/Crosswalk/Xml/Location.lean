import Crosswalk.Xml.Tree

/-!
# Locations in a document

A node is named by where it stands: the child indexes that lead to it from the document node, and,
for an attribute, its index among the attributes of the element reached. Locations are ordered
as the document is: an element, then its attributes, then its children.

Every property of a node that an expression can ask for is a function of the document and the
location: name, value, language, and the path that shows the location as text.
-/

namespace Crosswalk.Xml

structure Location where
  path : List Nat
  attribute? : Option Nat
  deriving DecidableEq, Repr, Inhabited

namespace Location

def root : Location := ⟨[], none⟩

def ofPath (path : List Nat) : Location := ⟨path, none⟩

def isAttribute (l : Location) : Bool :=
  l.attribute?.isSome

/-- The location without its attribute: the node itself, or the owner of an attribute. -/
def owner (l : Location) : Location := ⟨l.path, none⟩

/-- The node around this one: the owner of an attribute, the parent of another node. -/
def parent? (l : Location) : Option Location :=
  match l.attribute? with
  | some _ => some l.owner
  | none => if l.path.isEmpty then none else some ⟨l.path.dropLast, none⟩

/-- Where a location stands among those of its path: the node, then its attributes. -/
def slot (l : Location) : Nat :=
  match l.attribute? with
  | none => 0
  | some i => i + 1

def pathBefore : List Nat → List Nat → Bool
  | [], [] => false
  | [], _ :: _ => true
  | _ :: _, [] => false
  | a :: as, b :: bs => a < b || (a == b && pathBefore as bs)

def before (l m : Location) : Bool :=
  pathBefore l.path m.path || (l.path == m.path && l.slot < m.slot)

def dropRepeats : List Location → List Location
  | [] => []
  | [l] => [l]
  | l :: m :: rest => if l == m then dropRepeats (m :: rest) else l :: dropRepeats (m :: rest)

def inOrder (ls : List Location) : List Location :=
  dropRepeats (ls.mergeSort fun l m => !m.before l)

end Location

namespace Document

/-- The node that a nonempty path leads to, below a list of siblings. -/
def follow? : List Content → List Nat → Option Content
  | _, [] => none
  | siblings, [i] => siblings[i]?
  | siblings, i :: j :: rest =>
    match siblings[i]? with
    | some c => follow? c.children (j :: rest)
    | none => none

/-- The node at a location, or the owner of the attribute there; none for the document node. -/
def contentAt? (d : Document) (l : Location) : Option Content :=
  follow? d.children l.path

def childrenAt (d : Document) (l : Location) : List Content :=
  if l.path.isEmpty then d.children else ((d.contentAt? l).map Content.children).getD []

/-- The nodes on the way to a location, outermost first, without the document node. -/
def chain : List Content → List Nat → List Content
  | _, [] => []
  | siblings, i :: rest =>
    match siblings[i]? with
    | some c => c :: chain c.children rest
    | none => []

def attributeAt? (d : Document) (l : Location) : Option Attribute := do
  let i ← l.attribute?
  let c ← d.contentAt? l
  c.attributes[i]?

def scopeAt (d : Document) (l : Location) : List Binding :=
  (chain d.children l.path).foldl (fun scope c => extendScope c.bindings scope) []

def nameAt? (d : Document) (l : Location) : Option ExpandedName :=
  match l.attribute? with
  | some _ => (d.attributeAt? l).map (·.name)
  | none => (d.contentAt? l).bind Content.name?

/-- The name at a location as it is shown: with the alias of its namespace there. -/
def displayName (d : Document) (l : Location) : String :=
  ((d.nameAt? l).map (·.display (d.scopeAt l))).getD ""

/-- The string value of the node at a location: the value of an attribute, the text of a comment,
and the texts inside any other node. -/
def stringValue (d : Document) (l : Location) : String :=
  match l.attribute? with
  | some _ => ((d.attributeAt? l).map (·.value)).getD ""
  | none =>
    if l.path.isEmpty then Content.innerTexts d.children
    else ((d.contentAt? l).map Content.stringValue).getD ""

/-- The language in force at a location, given by the nearest `xml:lang`. -/
def languageAt? (d : Document) (l : Location) : Option String :=
  (chain d.children l.path).reverse.findSome? (·.attribute? ⟨some xmlNamespace, "lang"⟩)

/-- A positional step: what kind of node it is, and its place among its siblings of that kind. -/
def stepLabel (scope : List Binding) (siblings : List Content) (i : Nat) (c : Content) : String :=
  let name := match c with
    | .element n _ _ _ => n.display scope
    | .text _ => "text()"
    | .comment _ => "comment()"
    | .instruction _ _ => "processing-instruction()"
  let place := ((siblings.take i).filter c.sameKind).length + 1
  name ++ "[" ++ toString place ++ "]"

def stepLabels : List Binding → List Content → List Nat → List String
  | _, _, [] => []
  | scope, siblings, i :: rest =>
    match siblings[i]? with
    | some c =>
      let scope := extendScope c.bindings scope
      stepLabel scope siblings i c :: stepLabels scope c.children rest
    | none => []

/-- The path that shows a location, such as `/people[1]/person[2]/@id`. -/
def structuralPath (d : Document) (l : Location) : String :=
  let nodes := "/" ++ "/".intercalate (stepLabels [] d.children l.path)
  match l.attribute? with
  | some _ => nodes ++ "/@" ++ d.displayName l
  | none => nodes

/-! ## Locations around a location -/

def childLocations (d : Document) (l : Location) : List Location :=
  (List.range (d.childrenAt l).length).map fun i => ⟨l.path ++ [i], none⟩

def attributeLocations (d : Document) (l : Location) : List Location :=
  (List.range (((d.contentAt? l).map Content.attributes).getD []).length).map fun i =>
    ⟨l.path, some i⟩

mutual

/-- The paths of all nodes below the node at `path`, in document order. -/
def pathsBelow (path : List Nat) : Content → List (List Nat)
  | .element _ _ _ cs => pathsAmong path 0 cs
  | .text _ => []
  | .comment _ => []
  | .instruction _ _ => []

/-- The paths of the children of `path` from the `i`-th on, each followed by those below it. -/
def pathsAmong (path : List Nat) (i : Nat) : List Content → List (List Nat)
  | [] => []
  | c :: cs => (path ++ [i]) :: (pathsBelow (path ++ [i]) c ++ pathsAmong path (i + 1) cs)

end

def descendantLocations (d : Document) (l : Location) : List Location :=
  (pathsAmong l.path 0 (d.childrenAt l)).map Location.ofPath

def followingSiblings (d : Document) (l : Location) : List Location :=
  match l.path.getLast? with
  | none => []
  | some i =>
    let around := l.path.dropLast
    let count := (d.childrenAt (.ofPath around)).length
    ((List.range count).drop (i + 1)).map fun j => ⟨around ++ [j], none⟩

end Document

namespace Location

/-- The siblings before a node, nearest first. -/
def precedingSiblings (l : Location) : List Location :=
  match l.path.getLast? with
  | none => []
  | some i => (List.range i).reverse.map fun j => ⟨l.path.dropLast ++ [j], none⟩

def ancestors (l : Location) : List Location :=
  let paths := (List.range l.path.length).reverse.map fun k => Location.ofPath (l.path.take k)
  if l.isAttribute then l.owner :: paths else paths

end Location

end Crosswalk.Xml
