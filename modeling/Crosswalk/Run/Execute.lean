import Crosswalk.Run.Link
import Crosswalk.Run.Report
import Crosswalk.Run.Validate
import Crosswalk.Xml.Reader

/-!
# Mapping a document

The mappings are applied one after the other, each to its domain nodes in document order, and the
links of a mapping in turn to each of them. Every domain node begins with contexts of its own, so the
variables of one are never seen at another. A domain node whose entity cannot be resolved is dropped with
all its links.
-/

namespace Crosswalk

open Crosswalk.Xml (Location)

namespace Run

def generatedGraph (scene : Scene) (call : GeneratorCall) (node : Location) (position : Nat) :
    Run String := do
  match ← generate scene call node position with
  | .uri iri => return iri
  | _ => drop .graphNotUri

/-- The graph of a domain node: the generated one, else that of the mapping. -/
def domainGraph (scene : Scene) (mapping : Mapping) (mappingGraph? : Option String)
    (node : Location) (position : Nat) : Run (Option String) :=
  match mapping.domain.graphGenerator? with
  | some call => do
    let graph ← generatedGraph scene call node position
    return some graph
  | none => return mappingGraph?

/-- Follows the links of a mapping, of which the first has the number `k`. -/
def runLinks (scene : Scene) (place : Place) (mapping : Mapping) (node : Location) (domain : Nat)
    (domainGraph? : Option String) : Nat → List Link → Run Unit
  | _, [] => return
  | k, link :: rest => do
    if link.skip then runLinks scene place mapping node domain domainGraph? (k + 1) rest
    else
      let place := { place with link? := some k }
      isolate scene place node (runLink scene place mapping domain domainGraph? link)
      runLinks scene place mapping node domain domainGraph? (k + 1) rest

def runDomain (scene : Scene) (place : Place) (mapping : Mapping) (mappingGraph? : Option String)
    (node : Location) (position : Nat) : Run Unit := do
  modify fun s => { s with contexts := .empty }
  let domain ← enter (.fresh .domain node position none)
  if ← discards scene mapping.domain.target.condition? node then
    count fun c => { c with domainsFiltered := c.domainsFiltered + 1 }
  else
    let resolved ← resolve scene place mapping.domain.target.entity domain
    if resolved.value.isUri then do
      let graph? ← domainGraph scene mapping mappingGraph? node position
      link domain graph?
      runLinks scene place mapping node domain graph? 1 mapping.links
    else drop (.domainNotUri resolved.value.kind)

/-- The domain nodes of a mapping, numbered on from `position`. -/
def runDomains (scene : Scene) (place : Place) (mapping : Mapping)
    (mappingGraph? : Option String) : Nat → List Location → Run Unit
  | _, [] => return
  | position, node :: rest => do
    tryCatch (runDomain scene place mapping mappingGraph? node position) fun
      | .drop cause => do
        count fun c => { c with domainsFailed := c.domainsFailed + 1 }
        diagnose scene place node cause
      | .abort e => throw (.abort e)
    runDomains scene place mapping mappingGraph? (position + 1) rest

def runMapping (scene : Scene) (number : Nat) (mapping : Mapping) : Run Unit := do
  let mappingGraph? ← match mapping.graph? with
    | some name => do
      let graph ← ofSetup (scene.namespaces.expand name)
      pure (some graph)
    | none => pure none
  let nodes ← ofSetup (scene.source.select .root mapping.domain.sourceNode)
  count fun c => { c with domainsMatched := c.domainsMatched + nodes.length }
  runDomains scene ⟨number, none⟩ mapping mappingGraph? 1 nodes

/-- Applies some mappings, of which the first has the number `k`. -/
def runMappings (scene : Scene) : Nat → List Mapping → Run Unit
  | _, [] => return
  | k, mapping :: rest => do
    if !mapping.skip then runMapping scene k mapping
    runMappings scene (k + 1) rest

end Run

namespace Engine

def uuidSource (engine : Engine) (seed : List UInt8) : UuidSource :=
  match engine.settings.uuidWidth? with
  | some width => .alphabetic width 0
  | none => .random seed 0

def source (engine : Engine) (document : Xml.Document) : Source :=
  ⟨document, engine.namespaces, engine.settings.mergeDelimiter⟩

/-- Checks the mapping and applies it to a document. The seed only matters for identifiers that are
not counted. -/
def execute (engine : Engine) (seed : List UInt8) (document : Xml.Document) :
    Except RunError Report :=
  match engine.validate with
  | .error e => .error (.setup e)
  | .ok () =>
    let scene : Scene := ⟨engine, engine.source document⟩
    let start := RunState.initial (engine.uuidSource seed)
    match (Run.runMappings scene 1 engine.mapping.mappings).run start with
    | (.ok (), s) => .ok (.ofState s)
    | (.error (.abort e), _) => .error e
    | (.error (.drop _), s) => .ok (.ofState s)

def executeText (engine : Engine) (seed : List UInt8) (text : String) : Except RunError Report :=
  match Xml.Document.read? text with
  | some document => engine.execute seed document
  | none => .error (.load (.malformed "source"))

end Engine

end Crosswalk
