import Crosswalk.Xml.Markup
import Crosswalk.Xml.Tree

/-!
# Reading a document

The pieces of a document are put together to a tree: references are resolved, line ends and the
blanks of attribute values normalised, neighbouring texts and marked sections joined to one text,
and names brought into their namespaces. A document type is not accepted, so the only entities
are the five that are always there.
-/

namespace Crosswalk.Xml

/-! ## References, line ends and attribute values -/

/-- A character of a text or of a value: written out, or the meaning of a reference. -/
inductive Item where
  | literal (c : Char)
  | reference (c : Char)
  deriving DecidableEq, Repr

def digitValue? (base : Nat) (c : Char) : Option Nat :=
  let v? :=
    if '0' ≤ c ∧ c ≤ '9' then some (c.toNat - '0'.toNat)
    else if 'a' ≤ c ∧ c ≤ 'f' then some (c.toNat - 'a'.toNat + 10)
    else if 'A' ≤ c ∧ c ≤ 'F' then some (c.toNat - 'A'.toNat + 10)
    else none
  v?.filter (· < base)

def takeNumber? (base : Nat) (cs : List Char) : Option (Nat × List Char) :=
  let digits := cs.takeWhile fun c => (digitValue? base c).isSome
  let n := digits.foldl (fun n c => base * n + (digitValue? base c).getD 0) 0
  if digits.isEmpty || 0xFFFFFFFF < n then none else some (n, cs.drop digits.length)

/-- The character of a code point; one that no character has stands for the replacement character. -/
def charOfCode? (n : Nat) : Option Char :=
  let c := if n.isValidChar then Char.ofNat n else '\uFFFD'
  if isXmlChar c then some c else none

def entity? (name : List Char) : Option Char :=
  match String.ofList name with
  | "quot" => some '"'
  | "amp" => some '&'
  | "apos" => some '\''
  | "lt" => some '<'
  | "gt" => some '>'
  | _ => none

def takeReference? (cs : List Char) : Option (Char × List Char) := do
  let (c, rest) ← match cs with
    | '#' :: 'x' :: rest => do
      let (n, rest) ← takeNumber? 16 rest
      some (← charOfCode? n, rest)
    | '#' :: rest => do
      let (n, rest) ← takeNumber? 10 rest
      some (← charOfCode? n, rest)
    | _ => do
      let (name, rest) ← Markup.takeName? cs
      some (← entity? name, rest)
  match rest with
  | ';' :: rest => some (c, rest)
  | _ => none

def items? : Nat → List Char → Option (List Item)
  | _, [] => some []
  | 0, _ => none
  | fuel + 1, '&' :: rest => do
    let (c, rest) ← takeReference? rest
    let more ← items? fuel rest
    some (.reference c :: more)
  | fuel + 1, c :: rest => do
    let more ← items? fuel rest
    some (.literal c :: more)

/-- Appends a written character to a reversed text. A carriage return at its end becomes a line
feed, and a line feed after one is dropped; a carriage return that ends the text is one too. -/
def pushLine (out : List Char) (c : Char) (last : Bool) : List Char :=
  match out with
  | '\r' :: before =>
    if last && c == '\r' then '\n' :: '\n' :: before
    else if c == '\n' then '\n' :: before
    else c :: '\n' :: before
  | _ => if last && c == '\r' then '\n' :: out else c :: out

/-- The text that items stand for. What a reference stands for is kept, and so is the written
character right after it; all other line ends become line feeds. -/
def normalLines : Bool → List Char → List Item → List Char
  | _, out, [] => out.reverse
  | _, out, .reference c :: rest => normalLines true (c :: out) rest
  | true, out, .literal c :: rest => normalLines false (c :: out) rest
  | false, out, .literal c :: rest => normalLines false (pushLine out c rest.isEmpty) rest

/-- The value that items stand for: written tabs and line ends are spaces. -/
def normalValue : List Item → List Char
  | [] => []
  | .literal '\r' :: .literal '\n' :: rest => normalValue (.literal '\n' :: rest)
  | .literal c :: rest => (if c == '\n' || c == '\t' || c == '\r' then ' ' else c) :: normalValue rest
  | .reference c :: rest => c :: normalValue rest

def textOf? (written : List Char) : Option String :=
  (items? written.length written).map fun is => String.ofList (normalLines false [] is)

def sectionText (written : List Char) : String :=
  String.ofList (normalLines false [] (written.map .literal))

def valueOf? (written : List Char) : Option String :=
  (items? written.length written).map fun is => String.ofList (normalValue is)

/-! ## Names and declarations -/

/-- The attributes of a tag, told apart: declarations, and the attributes proper with the
qualifiers of their names. -/
def sortAttributes? : List Binding → List (WrittenName × String) → List WrittenAttribute →
    Option (List Binding × List (WrittenName × String))
  | bindings, plain, [] => some (bindings.reverse, plain.reverse)
  | bindings, plain, a :: rest => do
    let value ← valueOf? a.value
    if a.name.qualifier == "xmlns" then
      if value == xmlnsNamespace then none
      else if a.name.base == "xml" then
        if value == xmlNamespace then sortAttributes? bindings plain rest else none
      else if value == xmlNamespace then none
      else if bindings.any fun b => b.alias? == some a.name.base then none
      else sortAttributes? (⟨some a.name.base, value⟩ :: bindings) plain rest
    else if a.name.base == "xmlns" then
      if value == xmlNamespace || value == xmlnsNamespace then none
      else sortAttributes? (⟨none, value⟩ :: bindings) plain rest
    else sortAttributes? bindings ((a.name, value) :: plain) rest

def boundTo? (scope : List Binding) (alias? : Option String) : Option String :=
  (scope.find? fun b => b.alias? == alias?).map (·.uri)

/-- The name of an element. Without an alias it is in the default namespace, if there is one. -/
def elementName? (scope : List Binding) (n : WrittenName) : Option ExpandedName :=
  if n.qualifier.isEmpty then some ⟨boundTo? scope none, n.base⟩
  else (boundTo? scope (some n.qualifier)).map fun uri => ⟨some uri, n.base⟩

/-- The name of an attribute. Without an alias it is in no namespace. -/
def attributeName? (scope : List Binding) (n : WrittenName) : Option ExpandedName :=
  if n.qualifier.isEmpty then some ⟨none, n.base⟩
  else if n.qualifier == "xml" then some ⟨some xmlNamespace, n.base⟩
  else (boundTo? scope (some n.qualifier)).map fun uri => ⟨some uri, n.base⟩

def resolveAttributes? (scope : List Binding) :
    List Attribute → List (WrittenName × String) → Option (List Attribute)
  | done, [] => some done.reverse
  | done, (n, value) :: rest => do
    let name ← attributeName? scope n
    if done.any fun a => a.name == name then none
    else resolveAttributes? scope (⟨name, value⟩ :: done) rest

/-! ## Putting the tree together -/

/-- An element whose end has not come yet; its children so far are in reverse. -/
structure OpenElement where
  written : WrittenName
  name : ExpandedName
  bindings : List Binding
  attributes : List Attribute
  scope : List Binding
  children : List Content

/-- A document read in part: the nodes of its top, in reverse, and the open elements, innermost
first. -/
structure Partial where
  top : List Content
  stack : List OpenElement

namespace Partial

def add (p : Partial) (c : Content) : Partial :=
  match p.stack with
  | [] => { p with top := c :: p.top }
  | e :: outer => { p with stack := { e with children := c :: e.children } :: outer }

def addText (p : Partial) (t : String) : Partial :=
  match p.stack with
  | [] => p
  | e :: outer =>
    let children := match e.children with
      | .text before :: more => .text (before ++ t) :: more
      | more => .text t :: more
    { p with stack := { e with children := children } :: outer }

def step? (p : Partial) : Markup → Option Partial
  | .comment body => some (p.add (.comment (String.ofList body)))
  | .instruction target data => some (p.add (.instruction target data))
  | .text written =>
    if p.stack.isEmpty then if written.all isSpace then some p else none
    else (textOf? written).map p.addText
  | .marked written =>
    if p.stack.isEmpty then none else some (p.addText (sectionText written))
  | .openTag written attributes closed => do
    if written.qualifier == "xmlns" then none
    if p.stack.isEmpty && p.top.any Content.isElement then none
    let (bindings, plain) ← sortAttributes? [] [] attributes
    let scope := extendScope bindings (p.stack.head?.map (·.scope) |>.getD [])
    let attributes ← resolveAttributes? scope [] plain
    let name ← elementName? scope written
    if closed then some (p.add (.element name bindings attributes []))
    else some { p with stack := ⟨written, name, bindings, attributes, scope, []⟩ :: p.stack }
  | .closeTag written =>
    match p.stack with
    | [] => none
    | e :: outer =>
      if written == e.written then
        some ({ p with stack := outer }.add
          (.element e.name e.bindings e.attributes e.children.reverse))
      else none

def steps? (p : Partial) : List Markup → Option Partial
  | [] => some p
  | m :: rest => do (← p.step? m).steps? rest

end Partial

/-- Reads a document. It has to be well formed, with its namespaces declared, and has one root
element. -/
def Document.read? (s : String) : Option Document := do
  let pieces ← Markup.ofChars? s.toList
  let p ← Partial.steps? ⟨[], []⟩ pieces
  if p.stack.isEmpty && p.top.any Content.isElement then some ⟨p.top.reverse⟩ else none

end Crosswalk.Xml
