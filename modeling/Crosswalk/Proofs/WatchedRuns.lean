import Crosswalk.Run.Execute

/-!
# Watched runs

The contexts of a domain node are numbered, and steps hold on to numbers while steps inside of them enter
contexts of their own. A run answers for every number, also for one that no context has, and it cuts off a
way up that does not lead to smaller numbers. So nothing that it says can tell whether either ever happens.

A watched run takes the same steps but is strict. It comes to nothing if a context is asked for that is not
there, or if a way up does not end; what has no business with the contexts is not shown them; and the contexts
of a domain node are given up after it, whatever has become of it. On its way it notes its moments: after each
change of the contexts, and whenever a step begins to hold on to a number, how the contexts are, which numbers
are held, and which domain node the run is at.
-/

namespace Crosswalk

open Crosswalk.Xml (Location)

namespace Contexts

/-- The context with a number, if there is one. -/
def get? (cs : Contexts) (id : Nat) : Option Context :=
  cs.all[id]?

/-- Where the way up from a context ends, if it takes at most `n` contexts. A way through more of them than there
are comes back to one, and never ends. -/
def climb? (cs : Contexts) : Nat → Nat → Option Nat
  | 0, _ => none
  | n + 1, id =>
    match cs.get? id with
    | none => none
    | some c =>
      match c.role, c.parent? with
      | .domain, _ => some id
      | _, none => some id
      | _, some parent => climb? cs n parent

/-- Gives up all but the first `n` contexts. -/
def truncate (cs : Contexts) (n : Nat) : Contexts :=
  ⟨cs.all.take n⟩

end Contexts

/-- What surrounds a step: the domain node that the run is at, with its position, and the numbers that steps hold
on to which have begun and not ended. -/
structure Watch where
  domain? : Option (Location × Nat)
  held : List Nat

/-- The contexts as they are at some moment of a run. -/
structure Moment where
  watch : Watch
  contexts : Contexts

abbrev Watched := ReaderT Watch (ExceptT Fault (StateT (RunState × List Moment) Option))

namespace Watched

open Run (LinkSetting)

variable {α : Type}

/-! ## Steps without contexts -/

/-- A step that is not shown the contexts. -/
def aside (m : Run α) : Watched α := fun _ (s, moments) =>
  let (result, t) := m.run { s with contexts := .empty }
  some (result, { t with contexts := s.contexts }, moments)

/-- Looks at the state, but not at the contexts. -/
def read (f : RunState → α) : Watched α := fun _ (s, moments) =>
  some (.ok (f { s with contexts := .empty }), s, moments)

/-! ## Contexts -/

def note : Watched Unit := fun w (s, moments) =>
  some (.ok (), s, moments ++ [⟨w, s.contexts⟩])

def change (f : Contexts → Contexts) : Watched Unit := fun w (s, moments) =>
  some (.ok (), { s with contexts := f s.contexts }, moments ++ [⟨w, f s.contexts⟩])

def size : Watched Nat := fun _ (s, moments) =>
  some (.ok s.contexts.size, s, moments)

def context (id : Nat) : Watched Context := fun _ (s, moments) =>
  (s.contexts.get? id).map fun c => (.ok c, s, moments)

def owner (id : Nat) : Watched Nat := fun _ (s, moments) =>
  (s.contexts.climb? s.contexts.size id).map fun top => (.ok top, s, moments)

def enter (c : Context) : Watched Nat := do
  let id ← size
  change (·.push c)
  return id

def updateContext (id : Nat) (f : Context → Context) : Watched Unit := do
  let _ ← context id
  change (·.update id f)

def resolvedValue? (id : Nat) : Watched (Option Value) := do
  let c ← context id
  return c.resolved?.map (·.value)

def lookup? (id : Nat) (name : String) : Watched (Option Value) := do
  let top ← owner id
  let c ← context top
  return c.bindings.get? name

def bindVariable (id : Nat) (name : String) (value : Value) : Watched Unit := do
  let top ← owner id
  updateContext top fun c => { c with bindings := c.bindings.insert name value }

/-- A step that holds on to some numbers until it ends. -/
def holding (ids : List Nat) (m : Watched α) : Watched α := fun w =>
  (do note; m : Watched α) { w with held := ids ++ w.held }

/-- A step of a run that is at a domain node. -/
def atDomain (node : Location) (position : Nat) (m : Watched α) : Watched α := fun w =>
  m { w with domain? := some (node, position) }

/-- Gives up the contexts that a step has entered, however it has ended. -/
def releasing (m : Watched α) : Watched α := fun w (s, moments) =>
  (m w (s, moments)).map fun (result, t, moments) =>
    let contexts := t.contexts.truncate s.contexts.size
    (result, { t with contexts := contexts }, moments ++ [⟨w, contexts⟩])

def isolate (scene : Scene) (place : Place) (node : Location) (step : Watched Unit) : Watched Unit :=
  tryCatch step fun
    | .drop cause => aside (Run.diagnose scene place node cause)
    | .abort e => throw (.abort e)

/-! ## Values -/

def globalValue (scene : Scene) (generator? : Option GeneratorCall) (id : Nat) (name : String) :
    Watched Value := do
  match ← read (·.globals.get? name) with
  | some value => return value
  | none =>
    let c ← context id
    let value ← aside (Run.firstValue scene generator? c name)
    aside (modify fun s => { s with globals := s.globals.insert name value })
    return value

def variableValue (scene : Scene) (generator? : Option GeneratorCall) (id : Nat) (name : String) :
    Watched Value := do
  match ← lookup? id name with
  | some value => return value
  | none =>
    let c ← context id
    let value ← aside (Run.firstValue scene generator? c name)
    bindVariable id name value
    return value

def keyedValue (scene : Scene) (place : Place) (generator? : Option GeneratorCall) (id : Nat)
    (types : List String) : Watched Value := do
  match generator? with
  | none => throw (Fault.setup .missingGenerator)
  | some call =>
    let c ← context id
    let key := cacheKey scene.source place c types
    match ← read (·.cache.get? key) with
    | some value => return value
    | none =>
      let value ← aside (Run.generate scene call c.node c.position)
      aside (modify fun s => { s with cache := s.cache.insert key value })
      return value

def entityValue (scene : Scene) (place : Place) (entity : Entity) (id : Nat) (types : List String) :
    Watched Value :=
  match entity.globalName?, entity.variableName? with
  | some name, _ => globalValue scene entity.generator? id name
  | none, some name => variableValue scene entity.generator? id name
  | none, none => keyedValue scene place entity.generator? id types

/-! ## Entities -/

def shapedValue (scene : Scene) (place : Place) (entity : Entity) (id : Nat) (types : List String) :
    Option Value → Watched Value
  | some identity => return identity
  | none => do
    let generated ← entityValue scene place entity id types
    aside (Run.ofSetup (generated.shape types))

def belongings (scene : Scene) (c : Context) (labelCalls : List GeneratorCall) (value : Value)
    (attach : Watched (List (Attached Resolved))) :
    Watched (List (String × Value) × List (Attached Resolved)) := do
  if value.isUri then
    let labels ← aside (Run.labels scene c labelCalls)
    let attached ← attach
    return (labels, attached)
  else return ([], [])

mutual

def resolveWith (scene : Scene) (place : Place) (id : Nat) (identity? : Option Value) :
    Entity → Watched Resolved
  | ⟨typeNames, generator?, labelCalls, additionals, variableName?, globalName?⟩ => holding [id] do
    let c ← context id
    match c.resolved? with
    | some resolved => return resolved
    | none =>
      if typeNames.isEmpty then throw (Fault.setup .missingType)
      else
        let types ← aside (Run.expandAll scene typeNames)
        let value ← shapedValue scene place
          ⟨typeNames, generator?, labelCalls, additionals, variableName?, globalName?⟩ id types identity?
        aside (Run.associate scene c.node value)
        let (labels, attached) ← belongings scene c labelCalls value
          (resolveAdditionals scene place id c value 0 additionals)
        updateContext id fun c => { c with resolved? := some ⟨value, types, labels, attached⟩ }
        return ⟨value, types, labels, attached⟩

def resolveAdditionals (scene : Scene) (place : Place) (owner : Nat) (c : Context) (value : Value)
    (k : Nat) : List (Attached Entity) → Watched (List (Attached Resolved))
  | [] => return []
  | ⟨name, entity⟩ :: rest => do
    let relationship ← aside (Run.ofSetup (scene.namespaces.expand name))
    let id ← enter (Run.additionalContext c owner value k relationship)
    let resolved ← resolveWith scene place id none entity
    let others ← resolveAdditionals scene place owner c value (k + 1) rest
    return ⟨relationship, resolved⟩ :: others

end

def resolve (scene : Scene) (place : Place) (entity : Entity) (id : Nat) : Watched Resolved :=
  resolveWith scene place id none entity

/-! ## Batches -/

def stage (batch : Batch) (id : Nat) (graph? : Option String) : Watched Batch :=
  holding batch.contexts do
    let c ← context id
    if c.linked || batch.contexts.contains id then return batch
    else
      match c.resolved? with
      | some resolved =>
        return ⟨batch.statements ++ resolved.dependents graph?, batch.contexts ++ [id]⟩
      | none => return batch

def stageAll (batch : Batch) (graph? : Option String) : List Nat → Watched Batch
  | [] => return batch
  | id :: rest => do
    let batch ← stage batch id graph?
    stageAll batch graph? rest

def markLinked (ids : List Nat) : Watched Unit :=
  ids.forM fun id => updateContext id fun c => { c with linked := true }

def commit (batch : Batch) : Watched Unit :=
  holding batch.contexts do
    match ← read (·.graph.add batch.statements) with
    | .ok graph =>
      aside (modify fun s => { s with graph := graph })
      markLinked batch.contexts
    | .error (.invalidTerm value) => throw (.drop (.invalidIri value))
    | .error e => throw (.abort (.graph e))

def link (id : Nat) (graph? : Option String) : Watched Unit := do
  let batch ← stage .empty id graph?
  commit batch

/-! ## Links -/

def linkRange (l : LinkSetting) (path : Nat) (intermediates : List Nat) (node : Location)
    (position : Nat) : Watched Unit := do
  let range ← enter (.fresh .range node position (some path))
  holding [range] do
    if ← aside (Run.discards l.scene l.link.range.target.condition? node) then return
    else
      let resolved ← resolve l.scene l.place l.link.range.target.entity range
      match ← resolvedValue? l.domain with
      | none => return
      | some domainValue =>
        let properties ← aside (Run.expandAll l.scene l.link.target.relationships)
        let batch ← stage .empty l.domain l.domainGraph?
        let batch ← stageAll batch l.linkGraph? intermediates
        let values ← intermediates.mapM resolvedValue?
        let statements :=
          Run.chainStatements l.linkGraph? domainValue.text properties values resolved.value
        let batch ← stage { batch with statements := batch.statements ++ statements }
          range l.linkGraph?
        commit batch
        aside (Run.count fun c => { c with rangesLinked := c.rangesLinked + 1 })

def linkRanges (l : LinkSetting) (path : Nat) (intermediates : List Nat) :
    Nat → List Location → Watched Unit
  | _, [] => return
  | position, node :: rest => do
    isolate l.scene l.place node (linkRange l path intermediates node position)
    linkRanges l path intermediates (position + 1) rest

def intermediates (l : LinkSetting) (path : Nat) (node : Location) (position : Nat) :
    Nat → List Entity → Watched (List Nat)
  | _, [] => return []
  | k, entity :: rest => do
    let id ← enter (.fresh (.intermediate k) node position (some path))
    holding [id] do
      let unresolved : Watched Resolved := throw (.drop (.unresolvedIntermediate (k + 1)))
      let resolved ← tryCatch (resolve l.scene l.place entity id) fun
        | .drop _ => unresolved
        | .abort e => throw (.abort e)
      if resolved.value.isUri then do
        let others ← intermediates l path node position (k + 1) rest
        return id :: others
      else throw (.drop (.unresolvedIntermediate (k + 1)))

def linkPath (l : LinkSetting) (joined : Bool) (node : Location) (position : Nat) :
    Watched Unit := do
  let path ← enter (.fresh .path node position (some l.domain))
  holding [path] do
    if ← aside (Run.discards l.scene l.link.target.condition? node) then return
    else
      -- the intermediate entities are resolved where the context of the path is
      let _ ← context path
      let ids ← intermediates l path node position 0 l.link.target.entities
      holding ids do
        if joined then linkRanges l path ids position [node]
        else
          let expression := rangeRemainder l.link.range.sourceNode l.link.source.expression
          let nodes ← aside (Run.ofSetup (l.scene.source.select node expression))
          linkRanges l path ids 1 nodes

def linkPaths (l : LinkSetting) (joined : Bool) : Nat → List Location → Watched Unit
  | _, [] => return
  | position, node :: rest => do
    isolate l.scene l.place node (linkPath l joined node position)
    linkPaths l joined (position + 1) rest

def linkMerge (l : LinkSetting) (node : Location) (position : Nat) : Watched Unit := do
  let path ← enter (.fresh .path node position (some l.domain))
  holding [path] do
    if ← aside (Run.discards l.scene l.link.target.condition? node) then return
    else
      let range ← enter (.fresh .range node position (some path))
      holding [range] do
        if ← aside (Run.discards l.scene l.link.range.target.condition? node) then return
        else
          match ← resolvedValue? l.domain with
          | none => return
          | some identity =>
            let _ ← resolveWith l.scene l.place range (some identity) l.link.range.target.entity
            link range l.linkGraph?
            aside (Run.count fun c => { c with rangesLinked := c.rangesLinked + 1 })

def followLink (l : LinkSetting) : Watched Unit := do
  let domain ← context l.domain
  if l.link.target.isMerge then linkMerge l domain.node domain.position
  else if l.link.source.isJoin then do
    let join ← aside (Run.ofSetup l.link.source.join)
    let nodes ← aside (Run.joinRanges l join domain.node)
    linkPaths l true 1 nodes
  else do
    let nodes ← aside (Run.ofSetup (l.scene.source.select domain.node l.link.source.expression))
    linkPaths l false 1 nodes

def runLink (scene : Scene) (place : Place) (mapping : Mapping) (domain : Nat)
    (domainGraph? : Option String) (link : Link) : Watched Unit := do
  aside (Run.count fun c => { c with linksAttempted := c.linksAttempted + 1 })
  let linkGraph? ← match link.graph? with
    | some name => do
      let graph ← aside (Run.ofSetup (scene.namespaces.expand name))
      pure (some graph)
    | none => pure domainGraph?
  followLink ⟨scene, place, mapping, link, domain, domainGraph?, linkGraph?⟩

/-! ## Documents -/

def runLinks (scene : Scene) (place : Place) (mapping : Mapping) (node : Location) (domain : Nat)
    (domainGraph? : Option String) : Nat → List Link → Watched Unit
  | _, [] => return
  | k, link :: rest => do
    if link.skip then runLinks scene place mapping node domain domainGraph? (k + 1) rest
    else
      let place := { place with link? := some k }
      isolate scene place node (runLink scene place mapping domain domainGraph? link)
      runLinks scene place mapping node domain domainGraph? (k + 1) rest

def runDomain (scene : Scene) (place : Place) (mapping : Mapping) (mappingGraph? : Option String)
    (node : Location) (position : Nat) : Watched Unit := do
  let domain ← enter (.fresh .domain node position none)
  holding [domain] do
    if ← aside (Run.discards scene mapping.domain.target.condition? node) then
      aside (Run.count fun c => { c with domainsFiltered := c.domainsFiltered + 1 })
    else
      let resolved ← resolve scene place mapping.domain.target.entity domain
      if resolved.value.isUri then do
        let graph? ← aside (Run.domainGraph scene mapping mappingGraph? node position)
        link domain graph?
        runLinks scene place mapping node domain graph? 1 mapping.links
      else throw (.drop (.domainNotUri resolved.value.kind))

def runDomains (scene : Scene) (place : Place) (mapping : Mapping) (mappingGraph? : Option String) :
    Nat → List Location → Watched Unit
  | _, [] => return
  | position, node :: rest => do
    let domain := atDomain node position (runDomain scene place mapping mappingGraph? node position)
    tryCatch (releasing domain) fun
      | .drop cause => do
        aside (Run.count fun c => { c with domainsFailed := c.domainsFailed + 1 })
        aside (Run.diagnose scene place node cause)
      | .abort e => throw (.abort e)
    runDomains scene place mapping mappingGraph? (position + 1) rest

def runMapping (scene : Scene) (number : Nat) (mapping : Mapping) : Watched Unit := do
  change fun _ => .empty
  let mappingGraph? ← match mapping.graph? with
    | some name => do
      let graph ← aside (Run.ofSetup (scene.namespaces.expand name))
      pure (some graph)
    | none => pure none
  let nodes ← aside (Run.ofSetup (scene.source.select .root mapping.domain.sourceNode))
  aside (Run.count fun c => { c with domainsMatched := c.domainsMatched + nodes.length })
  runDomains scene ⟨number, none⟩ mapping mappingGraph? 1 nodes

def runMappings (scene : Scene) : Nat → List Mapping → Watched Unit
  | _, [] => return
  | k, mapping :: rest => do
    if !mapping.skip then runMapping scene k mapping
    runMappings scene (k + 1) rest

end Watched

/-- What a watched run of a mapping comes to, if to anything, and the moments that it goes through. -/
def Engine.executeWatched (engine : Engine) (seed : List UInt8) (document : Xml.Document) :
    Option (Except RunError Report × List Moment) :=
  match engine.validate with
  | .error e => some (.error (.setup e), [])
  | .ok () =>
    let scene : Scene := ⟨engine, engine.source document⟩
    let start := RunState.initial (engine.uuidSource seed)
    (Watched.runMappings scene 1 engine.mapping.mappings ⟨none, []⟩ (start, [])).map fun
      | (.ok (), s, moments) => (.ok (.ofState s), moments)
      | (.error (.abort e), _, moments) => (.error e, moments)
      | (.error (.drop _), s, moments) => (.ok (.ofState s), moments)

end Crosswalk
