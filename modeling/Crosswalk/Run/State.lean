import Crosswalk.Association
import Crosswalk.Condition.Evaluation
import Crosswalk.Generator.Generate
import Crosswalk.Rdf.Graph
import Crosswalk.Run.Context
import Crosswalk.Settings

/-!
# The state of a run

What a run is made of, and what it changes. A step of a run may fail; what it changed up to then
stays changed, and only what it wrote to the graph is all or nothing. A failure that only drops a
part of the source can be isolated: it becomes a diagnostic, and the run goes on.
-/

namespace Crosswalk

open Crosswalk.Xml (Location)

/-- A mapping, and all that it needs to be applied to a document. -/
structure Engine where
  mapping : MappingDocument
  policy : GeneratorPolicy
  vocabulary? : Option Vocabulary
  settings : Settings

namespace Engine

def namespaces (engine : Engine) : Namespaces :=
  engine.mapping.namespaces

def generatorSetting (engine : Engine) : GeneratorSetting :=
  ⟨engine.namespaces, engine.settings.defaultLanguage?, engine.settings.mergeDelimiter⟩

end Engine

/-- What stays fixed while a document is mapped. -/
structure Scene where
  engine : Engine
  source : Source

namespace Scene

def namespaces (s : Scene) : Namespaces :=
  s.engine.namespaces

def conditionSetting (s : Scene) : ConditionSetting :=
  ⟨s.source, s.engine.vocabulary?⟩

end Scene

/-- The mapping and the link that are being followed, numbered from one. -/
structure Place where
  mapping : Nat
  link? : Option Nat
  deriving DecidableEq, Repr, Inhabited

structure Diagnostic where
  place : Place
  path : String
  cause : DropCause
  deriving DecidableEq, Repr

structure Counters where
  domainsMatched : Nat
  domainsFiltered : Nat
  domainsFailed : Nat
  linksAttempted : Nat
  rangesLinked : Nat
  deriving DecidableEq, Repr

instance : Inhabited Counters := ⟨⟨0, 0, 0, 0, 0⟩⟩

structure RunState where
  uuids : UuidSource
  cache : Table Value
  globals : Table Value
  associations : AssociationTable
  diagnostics : List Diagnostic
  counters : Counters
  graph : Rdf.Graph
  joins : JoinCache
  contexts : Contexts

def RunState.initial (uuids : UuidSource) : RunState :=
  ⟨uuids, .empty, .empty, .empty, [], default, .empty, .empty, .empty⟩

abbrev Run := ExceptT Fault (StateM RunState)

namespace Run

def ofSetup {α : Type} : Except SetupError α → Run α
  | .ok a => return a
  | .error e => throw (Fault.setup e)

def ofRunError {α : Type} : Except RunError α → Run α
  | .ok a => return a
  | .error e => throw (.abort e)

def drop {α : Type} (cause : DropCause) : Run α :=
  throw (.drop cause)

/-! ## Contexts -/

def context (id : Nat) : Run Context :=
  return (← get).contexts.get id

/-- Enters a context and gives its number. -/
def enter (c : Context) : Run Nat :=
  modifyGet fun s => (s.contexts.size, { s with contexts := s.contexts.push c })

def updateContext (id : Nat) (f : Context → Context) : Run Unit :=
  modify fun s => { s with contexts := s.contexts.update id f }

def resolvedValue? (id : Nat) : Run (Option Value) :=
  return (← context id).resolved?.map (·.value)

/-! ## Counting and reporting -/

def count (f : Counters → Counters) : Run Unit :=
  modify fun s => { s with counters := f s.counters }

def diagnose (scene : Scene) (place : Place) (node : Location) (cause : DropCause) : Run Unit :=
  modify fun s => { s with
    diagnostics := s.diagnostics ++ [⟨place, scene.source.path node, cause⟩] }

/-- Turns a failure that only drops the step into a diagnostic. -/
def isolate (scene : Scene) (place : Place) (node : Location) (step : Run Unit) : Run Unit :=
  tryCatch step fun
    | .drop cause => diagnose scene place node cause
    | .abort e => throw (.abort e)

/-! ## Conditions and generators -/

def discards (scene : Scene) (condition? : Option Condition) (node : Location) : Run Bool :=
  ofRunError (Condition.guardFails scene.conditionSetting node condition?)

/-- The values of arguments at a node. The language of a value is that of the argument, else the one in
force at the node that the value was read from. -/
def readArgument (source : Source) (node : Location) (position : Nat) : ArgumentReader :=
  fun argument merged =>
    let inSource {α : Type} (v : Except SetupError α) : Except RunError α := v.mapError .setup
    match argument.source with
    | .constant => .ok ⟨argument.value, argument.language?⟩
    | .position => .ok ⟨toString position, none⟩
    | .xpathPosition =>
      (inSource (source.select node argument.value)).map fun nodes =>
        ⟨(nodes.head?.map source.path).getD "", none⟩
    | .xpath =>
      if merged then
        (inSource (source.merged node argument.value)).map fun value =>
          ⟨value, argument.language?.or (source.language? node)⟩
      else
        (inSource (source.scalarWithNode node argument.value)).map fun (value, found?) =>
          ⟨value, argument.language?.or (source.language? (found?.getD node))⟩

def generation {α : Type} (g : Generation α) : Run α := fun s =>
  let (result, after) := g.run ⟨s.uuids, []⟩
  (result, { s with uuids := after.uuids })

def generate (scene : Scene) (call : GeneratorCall) (node : Location) (position : Nat) : Run Value :=
  generation <|
    scene.engine.policy.generate scene.engine.generatorSetting
      (readArgument scene.source node position) call

end Run

end Crosswalk
