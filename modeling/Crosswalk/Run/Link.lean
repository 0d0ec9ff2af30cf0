import Crosswalk.Mapping.Join
import Crosswalk.Run.Batch
import Crosswalk.Run.Resolve

/-!
# Following links

A link leads from the entity of a domain node to the entities of its ranges, along a path or by a
join, or it merges the description of its range into the domain. Every path node and every range node is
a step of its own: a failure drops that step alone. A step resolves all that it needs first and writes
once, at its end.
-/

namespace Crosswalk

open Crosswalk.Rdf (Statement)
open Crosswalk.Xml (Location)

namespace Run

/-- What the steps of a link have in common: the link, the mapping that it belongs to, the number of
the domain context, and the graphs for the statements of the domain and of the link. -/
structure LinkSetting where
  scene : Scene
  place : Place
  mapping : Mapping
  link : Link
  domain : Nat
  domainGraph? : Option String
  linkGraph? : Option String

/-! ## Ranges -/

/-- The statements from a subject through intermediate values, and the subject of the last one. -/
def chain (graph? : Option String) (subject : String) :
    List (String × Option Value) → List Statement × String
  | [] => ([], subject)
  | (_, none) :: rest => chain graph? subject rest
  | (property, some value) :: rest =>
    let (statements, last) := chain graph? value.text rest
    (⟨subject, property, value, graph?⟩ :: statements, last)

def chainStatements (graph? : Option String) (subject : String) (properties : List String)
    (values : List (Option Value)) (range : Value) : List Statement :=
  let (statements, last) := chain graph? subject (properties.zip values)
  match properties.getLast? with
  | some property => statements ++ [⟨last, property, range, graph?⟩]
  | none => statements

def linkRange (l : LinkSetting) (path : Nat) (intermediates : List Nat) (node : Location)
    (position : Nat) : Run Unit := do
  let range ← enter (.fresh .range node position (some path))
  if ← discards l.scene l.link.range.target.condition? node then return
  else
    let resolved ← resolve l.scene l.place l.link.range.target.entity range
    match ← resolvedValue? l.domain with
    | none => return
    | some domainValue =>
      let properties ← expandAll l.scene l.link.target.relationships
      let batch ← stage .empty l.domain l.domainGraph?
      let batch ← stageAll batch l.linkGraph? intermediates
      let values ← intermediates.mapM resolvedValue?
      let statements :=
        chainStatements l.linkGraph? domainValue.text properties values resolved.value
      let batch ← stage { batch with statements := batch.statements ++ statements }
        range l.linkGraph?
      commit batch
      count fun c => { c with rangesLinked := c.rangesLinked + 1 }

/-- The steps of some range nodes, numbered on from `position`. -/
def linkRanges (l : LinkSetting) (path : Nat) (intermediates : List Nat) :
    Nat → List Location → Run Unit
  | _, [] => return
  | position, node :: rest => do
    isolate l.scene l.place node (linkRange l path intermediates node position)
    linkRanges l path intermediates (position + 1) rest

/-! ## Paths -/

/-- Resolves the intermediate entities of a path, of which the first has the number `k`. Each has to be a
resource. -/
def intermediates (l : LinkSetting) (path : Nat) (node : Location) (position : Nat) :
    Nat → List Entity → Run (List Nat)
  | _, [] => return []
  | k, entity :: rest => do
    let id ← enter (.fresh (.intermediate k) node position (some path))
    let unresolved : Run Resolved := drop (.unresolvedIntermediate (k + 1))
    let resolved ← tryCatch (resolve l.scene l.place entity id) fun
      | .drop _ => unresolved
      | .abort e => throw (.abort e)
    if resolved.value.isUri then do
      let others ← intermediates l path node position (k + 1) rest
      return id :: others
    else drop (.unresolvedIntermediate (k + 1))

/-- Follows a path node to its ranges. A join has found the range node already. -/
def linkPath (l : LinkSetting) (joined : Bool) (node : Location) (position : Nat) : Run Unit := do
  let path ← enter (.fresh .path node position (some l.domain))
  if ← discards l.scene l.link.target.condition? node then return
  else
    let ids ← intermediates l path node position 0 l.link.target.entities
    if joined then linkRanges l path ids position [node]
    else
      let expression := rangeRemainder l.link.range.sourceNode l.link.source.expression
      let nodes ← ofSetup (l.scene.source.select node expression)
      linkRanges l path ids 1 nodes

def linkPaths (l : LinkSetting) (joined : Bool) : Nat → List Location → Run Unit
  | _, [] => return
  | position, node :: rest => do
    isolate l.scene l.place node (linkPath l joined node position)
    linkPaths l joined (position + 1) rest

/-! ## Joins -/

/-- The nodes that an expression selects and whose key is `value`. A relative expression is
evaluated at the node around the domain node. -/
def joinedNodes (l : LinkSetting) (domainNode : Location) (expression key value : String) :
    Run (List Location) := do
  let absolute := Text.startsWith "/" (Text.trim expression)
  let base := if absolute then Location.root else (domainNode.parent?).getD Location.root
  let name := Source.joinName l.mapping.domain.sourceNode l.link.source.expression
    (expression ++ "#" ++ key) (if absolute then none else some (l.scene.source.path base))
  let (nodes, joins) ← ofSetup (l.scene.source.joined (← get).joins name base expression key value)
  modify fun s => { s with joins := joins }
  return nodes

/-- The range nodes that are joined to some nodes in between, each once. -/
def joinOnward (l : LinkSetting) (domainNode : Location) (range : String) (keys : KeyPair)
    (found : List Location) : List Location → Run (List Location)
  | [] => return found
  | node :: rest => do
    let value ← ofSetup (l.scene.source.scalar node keys.source)
    if value.isEmpty then joinOnward l domainNode range keys found rest
    else
      let nodes ← joinedNodes l domainNode range keys.target value
      let found := nodes.foldl (fun f n => if f.contains n then f else f ++ [n]) found
      joinOnward l domainNode range keys found rest

/-- The range nodes that a join finds for a domain node; none when its key is empty. -/
def joinRanges (l : LinkSetting) (join : Join) (domainNode : Location) : Run (List Location) := do
  let value ← ofSetup (l.scene.source.scalar domainNode join.keys.source)
  if value.isEmpty then return []
  else
    let range := Text.trim l.link.range.sourceNode
    match join.hop? with
    | none => joinedNodes l domainNode range join.keys.target value
    | some hop =>
      let nodes ← joinedNodes l domainNode hop.node join.keys.target value
      joinOnward l domainNode range hop.keys [] nodes

/-! ## Links -/

/-- Resolves the range on the domain node, with the identity of the domain. -/
def linkMerge (l : LinkSetting) (node : Location) (position : Nat) : Run Unit := do
  let path ← enter (.fresh .path node position (some l.domain))
  if ← discards l.scene l.link.target.condition? node then return
  else
    let range ← enter (.fresh .range node position (some path))
    if ← discards l.scene l.link.range.target.condition? node then return
    else
      match ← resolvedValue? l.domain with
      | none => return
      | some identity =>
        let _ ← resolveWith l.scene l.place range (some identity) l.link.range.target.entity
        link range l.linkGraph?
        count fun c => { c with rangesLinked := c.rangesLinked + 1 }

def followLink (l : LinkSetting) : Run Unit := do
  let domain ← context l.domain
  if l.link.target.isMerge then linkMerge l domain.node domain.position
  else if l.link.source.isJoin then do
    let join ← ofSetup l.link.source.join
    let nodes ← joinRanges l join domain.node
    linkPaths l true 1 nodes
  else do
    let nodes ← ofSetup (l.scene.source.select domain.node l.link.source.expression)
    linkPaths l false 1 nodes

/-- Follows a link, in the graph that it names or else in that of the domain. -/
def runLink (scene : Scene) (place : Place) (mapping : Mapping) (domain : Nat)
    (domainGraph? : Option String) (link : Link) : Run Unit := do
  count fun c => { c with linksAttempted := c.linksAttempted + 1 }
  let linkGraph? ← match link.graph? with
    | some name => do
      let graph ← ofSetup (scene.namespaces.expand name)
      pure (some graph)
    | none => pure domainGraph?
  followLink ⟨scene, place, mapping, link, domain, domainGraph?, linkGraph?⟩

end Run

end Crosswalk
