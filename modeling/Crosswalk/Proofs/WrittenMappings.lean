import Crosswalk.Proofs.PathElements

/-!
# Writing mapping documents

The layout the other way round: for every part of a mapping the element that it is read from. An element is
written without a namespace, and with a text only where there is one to write; the relations of a path stand
in turn with what is between them.

What is written can be read back if nothing that the reader strips or passes over was there in the first place:
blanks around a text, and attributes that are empty.
-/

namespace Crosswalk

namespace Layout

open Crosswalk.Xml (Content)

/-! ## Elements -/

def plain (name : String) (attributes : List (String × String)) (children : List Content) : Content :=
  .element ⟨none, name⟩ [] (attributes.map fun (key, value) => ⟨⟨none, key⟩, value⟩) children

/-- The text of an element. One that is empty is left out. -/
def writeText (text : String) : List Content :=
  if text.isEmpty then [] else [.text text]

/-- An element with a text alone. -/
def leaf (name text : String) : Content :=
  plain name [] (writeText text)

/-- An attribute that may be left out. -/
def writeOptional (key : String) (value? : Option String) : List (String × String) :=
  value?.toList.map fun value => (key, value)

def writeFlag (key : String) (raised : Bool) : List (String × String) :=
  if raised then [(key, "true")] else []

/-! ## Parts of a mapping -/

def writeArgument (a : Argument) : Content :=
  plain "arg" ([("name", a.name), ("type", a.source.name)] ++ writeOptional "language" a.language?)
    (writeText a.value)

def writeGenerator (name : String) (call : GeneratorCall) : Content :=
  plain name [("name", call.name)] (call.arguments.map writeArgument)

mutual

def writeCondition : Condition → Content
  | .exists e => leaf "exists" e
  | .equals e value => plain "equals" [("value", value)] (writeText e)
  | .broader e value => plain "broader" [("value", value)] (writeText e)
  | .narrower e value => plain "narrower" [("value", value)] (writeText e)
  | .exactMatch e value => plain "exact_match" [("value", value)] (writeText e)
  | .all cs => plain "and" [] (writeBlocks cs)
  | .any cs => plain "or" [] (writeBlocks cs)
  | .not c => plain "not" [] [plain "if" [] [writeCondition c]]

def writeBlocks : List Condition → List Content
  | [] => []
  | c :: cs => plain "if" [] [writeCondition c] :: writeBlocks cs

end

mutual

def writeEntity : Entity → Content
  | ⟨types, generator?, labels, additionals, variableName?, globalName?⟩ =>
    plain "entity" (writeOptional "variable" variableName? ++ writeOptional "global_variable" globalName?)
      (types.map (leaf "type") ++ generator?.toList.map (writeGenerator "instance_generator") ++
        labels.map (writeGenerator "label_generator") ++ writeAdditionals additionals)

def writeAdditionals : List (Attached Entity) → List Content
  | [] => []
  | ⟨relationship, entity⟩ :: rest =>
    plain "additional" [] [leaf "relationship" relationship, writeEntity entity] :: writeAdditionals rest

end

/-- A target, with what else stands in it. -/
def writeTarget (t : Target) (others : List Content) : Content :=
  plain "target_node" [] (writeBlocks t.condition?.toList ++ writeEntity t.entity :: others)

def writeSourceRelation (r : SourceRelation) : Content :=
  plain "source_relation" [] (alternate (r.relations.map (leaf "relation")) (r.nodes.map (leaf "node")))

def writeTargetRelation (r : TargetRelation) : Content :=
  plain "target_relation" [] (writeBlocks r.condition?.toList ++
    alternate (r.relationships.map (leaf "relationship")) (r.entities.map writeEntity))

def writeLink (l : Link) : Content :=
  plain "link" (writeOptional "namedgraph" l.graph? ++ writeFlag "skip" l.skip)
    [plain "path" [] [writeSourceRelation l.source, writeTargetRelation l.target],
      plain "range" [] [leaf "source_node" l.range.sourceNode, writeTarget l.range.target []]]

def writeGraphGenerator (call : GeneratorCall) : Content :=
  plain "named_graph" [] [writeGenerator "instance_generator" call]

def writeDomain (d : Domain) : Content :=
  plain "domain" [] [leaf "source_node" d.sourceNode,
    writeTarget d.target (d.graphGenerator?.toList.map writeGraphGenerator)]

def writeMapping (m : Mapping) : Content :=
  plain "mapping" (writeOptional "namedgraph" m.graph? ++ writeFlag "skip" m.skip)
    (writeDomain m.domain :: m.links.map writeLink)

def writeNamespace (entry : String × String) : Content :=
  plain "namespace" [("prefix", entry.1), ("uri", entry.2)] []

def writeMappings (d : MappingDocument) : Content :=
  plain "x3ml" [] [plain "namespaces" [] (d.namespaces.toList.map writeNamespace),
    plain "mappings" [] (d.mappings.map writeMapping)]

end Layout

/-! ## What can be read back -/

namespace Text

/-- A text without blanks around it. -/
def IsTrimmed (s : String) : Prop := trim s = s

/-- The value of an attribute that does not count as absent. -/
def IsPresent (s : String) : Prop := IsTrimmed s ∧ s ≠ ""

instance (s : String) : Decidable (IsTrimmed s) := inferInstanceAs (Decidable (_ = _))

instance (s : String) : Decidable (IsPresent s) := inferInstanceAs (Decidable (_ ∧ _))

end Text

open Text (IsTrimmed IsPresent)

structure Argument.IsTidy (a : Argument) : Prop where
  name : IsPresent a.name
  value : IsTrimmed a.value
  language : ∀ language ∈ a.language?, IsTrimmed language

structure GeneratorCall.IsTidy (call : GeneratorCall) : Prop where
  name : IsPresent call.name
  arguments : ∀ a ∈ call.arguments, a.IsTidy

inductive Condition.IsTidy : Condition → Prop
  | exists {e : String} (he : IsTrimmed e) : IsTidy (.exists e)
  | equals {e value : String} (he : IsTrimmed e) (hvalue : IsPresent value) : IsTidy (.equals e value)
  | broader {e value : String} (he : IsTrimmed e) (hvalue : IsPresent value) : IsTidy (.broader e value)
  | narrower {e value : String} (he : IsTrimmed e) (hvalue : IsPresent value) : IsTidy (.narrower e value)
  | exactMatch {e value : String} (he : IsTrimmed e) (hvalue : IsPresent value) : IsTidy (.exactMatch e value)
  | all {cs : List Condition} (h : ∀ c ∈ cs, IsTidy c) : IsTidy (.all cs)
  | any {cs : List Condition} (h : ∀ c ∈ cs, IsTidy c) : IsTidy (.any cs)
  | not {c : Condition} (h : IsTidy c) : IsTidy (.not c)

inductive Entity.IsTidy : Entity → Prop
  | intro {e : Entity} (types : ∀ type ∈ e.types, IsTrimmed type)
      (generator : ∀ call ∈ e.generator?, call.IsTidy) (labels : ∀ call ∈ e.labels, call.IsTidy)
      (relationships : ∀ a ∈ e.additionals, IsTrimmed a.relationship)
      (additionals : ∀ a ∈ e.additionals, IsTidy a.entity)
      (variableName : ∀ name ∈ e.variableName?, IsPresent name)
      (globalName : ∀ name ∈ e.globalName?, IsPresent name) : IsTidy e

structure Target.IsTidy (t : Target) : Prop where
  entity : t.entity.IsTidy
  condition : ∀ c ∈ t.condition?, c.IsTidy

/-- A path has at least one relation, and so has its target. -/
structure Link.IsTidy (l : Link) : Prop where
  relations : ∀ relation ∈ l.source.relations, IsTrimmed relation
  nodes : ∀ node ∈ l.source.nodes, IsTrimmed node
  related : l.source.relations ≠ []
  condition : ∀ c ∈ l.target.condition?, c.IsTidy
  relationships : ∀ relationship ∈ l.target.relationships, IsTrimmed relationship
  entities : ∀ e ∈ l.target.entities, e.IsTidy
  linked : l.target.relationships ≠ []
  rangeNode : IsTrimmed l.range.sourceNode
  range : l.range.target.IsTidy
  graph : ∀ name ∈ l.graph?, IsPresent name

structure Mapping.IsTidy (m : Mapping) : Prop where
  domainNode : IsTrimmed m.domain.sourceNode
  domain : m.domain.target.IsTidy
  graphGenerator : ∀ call ∈ m.domain.graphGenerator?, call.IsTidy
  links : ∀ l ∈ m.links, l.IsTidy
  graph : ∀ name ∈ m.graph?, IsPresent name

/-- The aliases are those that are always there, with some declared over them. -/
structure MappingDocument.IsTidy (d : MappingDocument) : Prop where
  declared : ∃ declared, d.namespaces.table = Namespaces.builtin.table.insertAll declared
  aliases : ∀ entry ∈ d.namespaces.toList, IsTrimmed entry.1
  uris : ∀ entry ∈ d.namespaces.toList, IsPresent entry.2
  mappings : ∀ m ∈ d.mappings, m.IsTidy

end Crosswalk
