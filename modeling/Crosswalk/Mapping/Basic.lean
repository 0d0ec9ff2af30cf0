import Crosswalk.Condition
import Crosswalk.Namespaces

/-!
# Mappings

What a mapping document says. A mapping takes the nodes that its domain selects from the source and
describes the entity that each of them becomes. Its links go on from there: a path leads from the
domain to further nodes, and a range describes the entities that those become and by which
properties they hang together.

Every description of an entity ends in calls of named generators, which make its identity and its
labels out of values of the source.
-/

namespace Crosswalk

inductive ArgumentSource where
  /-- The value of a path expression. -/
  | xpath
  /-- The text of the argument itself. -/
  | constant
  /-- The place of the node among those selected with it. -/
  | position
  /-- The path of the node that an expression selects. -/
  | xpathPosition
  deriving DecidableEq, Repr, Inhabited

namespace ArgumentSource

def name : ArgumentSource → String
  | xpath => "xpath"
  | constant => "constant"
  | position => "position"
  | xpathPosition => "xpathPosition"

/-- The source of that name; path expressions are meant when none is given. -/
def ofName? : String → Option ArgumentSource
  | "" => some xpath
  | "xpath" => some xpath
  | "constant" => some constant
  | "position" => some position
  | "xpathPosition" => some xpathPosition
  | _ => none

theorem ofName?_name (s : ArgumentSource) : ofName? s.name = some s := by
  cases s <;> rfl

end ArgumentSource

structure Argument where
  name : String
  source : ArgumentSource
  value : String
  language? : Option String
  deriving DecidableEq, Repr, Inhabited

structure GeneratorCall where
  name : String
  arguments : List Argument
  deriving DecidableEq, Repr, Inhabited

def GeneratorCall.argument? (call : GeneratorCall) (name : String) : Option Argument :=
  call.arguments.find? fun a => a.name == name

/-- An entity that hangs off another one by a relationship. -/
structure Attached (ε : Type) where
  relationship : String
  entity : ε
  deriving Repr

/-- The description of an entity. Its identity is made by a generator, or taken from a variable: one of the
domain node that is being mapped, or one of the whole run. -/
structure Entity where
  types : List String
  generator? : Option GeneratorCall
  labels : List GeneratorCall
  additionals : List (Attached Entity)
  variableName? : Option String
  globalName? : Option String
  deriving Repr

def Entity.blank : Entity :=
  ⟨[], none, [], [], none, none⟩

instance : Inhabited Entity := ⟨.blank⟩

structure Target where
  entity : Entity
  condition? : Option Condition
  deriving Repr, Inhabited

/-- The nodes that a mapping starts from. The generator makes a named graph for each of them. -/
structure Domain where
  sourceNode : String
  target : Target
  graphGenerator? : Option GeneratorCall
  deriving Repr, Inhabited

/-! ## Relations -/

/-- How a path walks through the source: relations with a node between any two of them. -/
structure SourceRelation where
  relations : List String
  nodes : List String
  deriving DecidableEq, Repr, Inhabited

namespace SourceRelation

/-- A relation in which two key expressions are equated joins nodes instead of walking to them. -/
def isJoin (r : SourceRelation) : Bool :=
  r.relations.any (Text.occurs "==")

/-- Relations and nodes in turn, from the first relation to the last. -/
def interleave : List String → List String → List String
  | [], _ => []
  | [relation], _ => [relation]
  | relation :: relations, [] => relation :: interleave relations []
  | relation :: relations, node :: nodes => relation :: node :: interleave relations nodes

def expression (r : SourceRelation) : String :=
  "/".intercalate (((interleave r.relations r.nodes).map Text.trim).filter fun p => !p.isEmpty)

end SourceRelation

/-- The relationship that merges a range into its domain instead of linking it. -/
def mergeName : String := "MERGE"

/-- The properties from the domain to a range, with an intermediate entity between any two. -/
structure TargetRelation where
  condition? : Option Condition
  relationships : List String
  entities : List Entity
  deriving Repr, Inhabited

def TargetRelation.isMerge (r : TargetRelation) : Bool :=
  match r.entities, r.relationships with
  | [], [relationship] => Text.trim relationship == mergeName
  | _, _ => false

structure Range where
  sourceNode : String
  target : Target
  deriving Repr, Inhabited

/-- A way from the domain to a range. A link with a named graph places its statements there. -/
structure Link where
  source : SourceRelation
  target : TargetRelation
  range : Range
  graph? : Option String
  skip : Bool
  deriving Repr, Inhabited

structure Mapping where
  domain : Domain
  links : List Link
  graph? : Option String
  skip : Bool
  deriving Repr, Inhabited

structure MappingDocument where
  namespaces : Namespaces
  mappings : List Mapping
  deriving Repr, Inhabited

end Crosswalk
