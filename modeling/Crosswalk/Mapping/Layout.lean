import Crosswalk.Mapping.Basic
import Crosswalk.Xml.Reader

/-!
# Reading mapping documents

The layout of a mapping document: which elements stand where, and which of them may be left out.
Elements are told by their local names, texts and attribute values are read without the blanks
around them, and an attribute that is only blank counts as absent.

Some elements admit only certain children, and any other element among them is refused; elsewhere
an element that the layout does not name is passed over.
-/

namespace Crosswalk.Layout

open Crosswalk.Xml (Content)

def textOf (c : Content) : String :=
  Text.trim c.leadingText

def optional? (c : Content) (key : String) : Option String :=
  ((c.plainAttribute? key).map Text.trim).filter fun v => !v.isEmpty

def required (c : Content) (key : String) : Except LayoutFault String :=
  match optional? c key with
  | some v => .ok v
  | none => .error (.missingAttribute c.localName key)

def child (c : Content) (name : String) : Except LayoutFault Content :=
  match (c.elementsNamed name).head? with
  | some found => .ok found
  | none => .error (.missingChild c.localName name)

/-- A flag that is raised by `yes` or `true`. -/
def flag (c : Content) (key : String) : Bool :=
  match (c.plainAttribute? key).map Text.trim with
  | some v => v == "yes" || v == "true"
  | none => false

/-! ## Generators -/

def readArgument (c : Content) : Except LayoutFault Argument := do
  let name ← required c "name"
  let kind := ((c.plainAttribute? "type").map Text.trim).getD ""
  match ArgumentSource.ofName? kind with
  | some source => .ok ⟨name, source, textOf c, (c.plainAttribute? "language").map Text.trim⟩
  | none => .error (.unknownArgumentKind name kind)

def readGenerator (c : Content) : Except LayoutFault GeneratorCall := do
  let name ← required c "name"
  let arguments ← (c.elementsNamed "arg").mapM readArgument
  .ok ⟨name, arguments⟩

/-! ## Conditions -/

mutual

def readCondition : Content → Except LayoutFault Condition
  | c@(.element name _ _ children) =>
    match name.localName with
    | "exists" => .ok (.exists (textOf c))
    | "equals" => (required c "value").map (.equals (textOf c))
    | "broader" => (required c "value").map (.broader (textOf c))
    | "narrower" => (required c "value").map (.narrower (textOf c))
    | "exact_match" => (required c "value").map (.exactMatch (textOf c))
    | "and" => (readBlocks children).map .all
    | "or" => (readBlocks children).map .any
    | "not" => (readFirstBlock children).map .not
    | other => .error (.unknownCondition other)
  | _ => .error (.unknownCondition "")

/-- An `if` element: it holds exactly one condition. -/
def readBlock : Content → Except LayoutFault Condition
  | .element _ _ _ children => readOnly children
  | _ => .error .emptyCondition

def readOnly : List Content → Except LayoutFault Condition
  | [] => .error .emptyCondition
  | c :: rest =>
    if c.isElement then
      if rest.any Content.isElement then .error .severalConditions else readCondition c
    else readOnly rest

/-- The conditions of the `if` elements among some children. -/
def readBlocks : List Content → Except LayoutFault (List Condition)
  | [] => .ok []
  | c :: rest =>
    if c.isNamed "if" then do
      let condition ← readBlock c
      let conditions ← readBlocks rest
      .ok (condition :: conditions)
    else readBlocks rest

/-- The condition that a negation denies: that of its first `if` element. -/
def readFirstBlock : List Content → Except LayoutFault Condition
  | [] => .error (.missingChild "not" "if")
  | c :: rest => if c.isNamed "if" then readBlock c else readFirstBlock rest

end

/-- The condition of an element: that of its only `if`, or all of them together. -/
def readGuard (c : Content) : Except LayoutFault (Option Condition) := do
  match ← readBlocks c.children with
  | [] => .ok none
  | [condition] => .ok (some condition)
  | conditions => .ok (some (.all conditions))

/-! ## Entities -/

mutual

def readEntity : Content → Except LayoutFault Entity
  | c@(.element _ _ _ children) =>
    readParts { Entity.blank with
      variableName? := optional? c "variable", globalName? := optional? c "global_variable" }
      children
  | _ => .ok .blank

def readParts (entity : Entity) : List Content → Except LayoutFault Entity
  | [] => .ok entity
  | c :: rest =>
    if !c.isElement then readParts entity rest
    else
      match c.localName with
      | "type" => readParts { entity with types := entity.types ++ [textOf c] } rest
      | "instance_generator" =>
        if entity.generator?.isSome then .error .severalGenerators
        else do
          let call ← readGenerator c
          readParts { entity with generator? := some call } rest
      | "label_generator" => do
        let call ← readGenerator c
        readParts { entity with labels := entity.labels ++ [call] } rest
      | "additional" => do
        let relationship ← child c "relationship"
        let attached ← readOwned c
        readParts { entity with
          additionals := entity.additionals ++ [⟨textOf relationship, attached⟩] } rest
      | other => .error (.misplaced other "entity")

def readOwned : Content → Except LayoutFault Entity
  | .element name _ _ children => readFirstEntity name.localName children
  | _ => .error (.missingChild "" "entity")

def readFirstEntity (owner : String) : List Content → Except LayoutFault Entity
  | [] => .error (.missingChild owner "entity")
  | c :: rest => if c.isNamed "entity" then readEntity c else readFirstEntity owner rest

end

def readTarget (c : Content) : Except LayoutFault Target := do
  match c.elementsNamed "entity" with
  | [] => .error (.missingFirst "target_node" "an" "entity")
  | [e] =>
    let entity ← readEntity e
    let condition? ← readGuard c
    .ok ⟨entity, condition?⟩
  | _ => .error .severalEntities

/-! ## Links and mappings -/

def readSourceSteps (r : SourceRelation) : List Content → Except LayoutFault SourceRelation
  | [] => .ok r
  | c :: rest =>
    match c.localName with
    | "relation" => readSourceSteps { r with relations := r.relations ++ [textOf c] } rest
    | "node" => readSourceSteps { r with nodes := r.nodes ++ [textOf c] } rest
    | other => .error (.misplaced other "source_relation")

def readSourceRelation (c : Content) : Except LayoutFault SourceRelation := do
  let r ← readSourceSteps ⟨[], []⟩ c.elements
  if r.relations.isEmpty then .error (.missingFirst "source_relation" "a" "relation") else .ok r

def readTargetSteps (r : TargetRelation) : List Content → Except LayoutFault TargetRelation
  | [] => .ok r
  | c :: rest =>
    match c.localName with
    | "relationship" => readTargetSteps { r with relationships := r.relationships ++ [textOf c] } rest
    | "entity" => do
      let entity ← readEntity c
      readTargetSteps { r with entities := r.entities ++ [entity] } rest
    | "if" => readTargetSteps r rest
    | other => .error (.misplaced other "target_relation")

def readTargetRelation (c : Content) : Except LayoutFault TargetRelation := do
  let condition? ← readGuard c
  let r ← readTargetSteps ⟨condition?, [], []⟩ c.elements
  if r.relationships.isEmpty then .error (.missingFirst "target_relation" "a" "relationship")
  else .ok r

def readLink (c : Content) : Except LayoutFault Link := do
  let path ← child c "path"
  let range ← child c "range"
  let source ← readSourceRelation (← child path "source_relation")
  let target ← readTargetRelation (← child path "target_relation")
  let rangeNode ← child range "source_node"
  let rangeTarget ← readTarget (← child range "target_node")
  .ok ⟨source, target, ⟨textOf rangeNode, rangeTarget⟩, optional? c "namedgraph", flag c "skip"⟩

def readGraphGenerator (target : Content) : Except LayoutFault (Option GeneratorCall) := do
  match (target.elementsNamed "named_graph").head? with
  | some graph =>
    let call ← readGenerator (← child graph "instance_generator")
    .ok (some call)
  | none => .ok none

def readDomain (c : Content) : Except LayoutFault Domain := do
  let target ← child c "target_node"
  let sourceNode ← child c "source_node"
  let entity ← readTarget target
  let graphGenerator? ← readGraphGenerator target
  .ok ⟨textOf sourceNode, entity, graphGenerator?⟩

def readMapping (c : Content) : Except LayoutFault Mapping := do
  let domain ← readDomain (← child c "domain")
  let links ← (c.elementsNamed "link").mapM readLink
  .ok ⟨domain, links, optional? c "namedgraph", flag c "skip"⟩

/-- A namespace declaration: its alias, which may be empty, and its namespace. -/
def readNamespace (c : Content) : Except LayoutFault (String × String) := do
  let uri ← required c "uri"
  .ok (((c.plainAttribute? "prefix").map Text.trim).getD "", uri)

/-- The children of that name of all children called `group`. -/
def grouped (root : Content) (group name : String) : List Content :=
  (root.elementsNamed group).flatMap fun g => g.elementsNamed name

def readMappings (root : Content) : Except LayoutFault MappingDocument := do
  if root.localName != "x3ml" then .error (.wrongRoot "x3ml" root.localName)
  else
    let declared ← (grouped root "namespaces" "namespace").mapM readNamespace
    let mappings ← (grouped root "mappings" "mapping").mapM readMapping
    .ok ⟨⟨Namespaces.builtin.table.insertAll declared⟩, mappings⟩

end Crosswalk.Layout

namespace Crosswalk

def Layout.readText {α : Type} (kind : String)
    (read : Xml.Content → Except LayoutFault α) (text : String) : Except LoadError α :=
  match (Xml.Document.read? text).bind (·.rootElement?) with
  | some root => (read root).mapError (.layout kind)
  | none => .error (.malformed kind)

def MappingDocument.read (text : String) : Except LoadError MappingDocument :=
  Layout.readText "mapping" Layout.readMappings text

end Crosswalk
