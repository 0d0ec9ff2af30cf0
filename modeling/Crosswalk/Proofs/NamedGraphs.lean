import Crosswalk.Proofs.Atomicity
import Crosswalk.Proofs.Generations
import Crosswalk.Proofs.LinkedBranches

/-!
# Named graphs

Where a statement is placed is told by the domain node that is being processed, its mapping, and the link
that is being followed, and by nothing that other nodes have left behind. What is written at all has
been gathered by some part inside of a domain node, so it is enough to look at what parts gather: the domain
node itself gathers the description of its entity for the graph of the node, and a part of one of its links
gathers statements for the graph of that link. A node that is filtered out, or for which no graph can be
made, leaves nothing behind.
-/

namespace Crosswalk

open Crosswalk.Rdf (Statement)
open Crosswalk.Xml (Location)

/-- All statements about a resource are placed in one graph. -/
theorem Resolved.States.graph?_eq {graph? : Option String} {r : Resolved} {st : Statement}
    (h : r.States graph? st) : st.graph? = graph? := by
  induction h with
  | type => rfl
  | label => rfl
  | leads => rfl
  | further _ _ _ ih => exact ih

namespace Run

theorem graph?_of_mem_chain {graph? : Option String} {subject : String}
    {steps : List (String × Option Value)} {st : Statement}
    (h : st ∈ (chain graph? subject steps).1) : st.graph? = graph? := by
  induction steps generalizing subject with
  | nil => cases h
  | cons step rest ih =>
    obtain ⟨property, value?⟩ := step
    cases value? with
    | none => exact ih h
    | some value =>
      rcases List.mem_cons.1 h with rfl | h
      · rfl
      · exact ih h

theorem graph?_of_mem_chainStatements {graph? : Option String} {subject : String}
    {properties : List String} {values : List (Option Value)} {range : Value} {st : Statement}
    (h : st ∈ chainStatements graph? subject properties values range) : st.graph? = graph? := by
  dsimp only [chainStatements] at h
  split at h
  · rcases List.mem_append.1 h with h | h
    · exact graph?_of_mem_chain h
    · rw [List.mem_singleton.1 h]
  · exact graph?_of_mem_chain h

/-! ## The graph of a domain node -/

/-- The graph of a domain node: the one that its mapping generates for it, else the one that the mapping
names, else the default one. A generator that draws identifiers draws them from the state. -/
def PlacesDomain (scene : Scene) (m : Mapping) (node : Location) (position : Nat) (s : RunState)
    (graph? : Option String) : Prop :=
  match m.domain.graphGenerator? with
  | some call => ∃ iri, generated scene call node position s = .ok (.uri iri) ∧ graph? = some iri
  | none => scene.NamesGraph none m.graph? graph?

section

variable {scene : Scene} {m : Mapping} {mappingGraph? graph? graph?' : Option String} {node : Location}
  {position : Nat} {s t : RunState}

theorem placesDomain_of_domainGraph (hm : scene.NamesGraph none m.graph? mappingGraph?)
    (h : outcome (domainGraph scene m mappingGraph? node position) s = (.ok graph?, t)) :
    PlacesDomain scene m node position s graph? := by
  rw [domainGraph] at h
  split at h
  next call hcall =>
    rw [PlacesDomain, hcall]
    obtain ⟨graph, u, hgraph, h⟩ := bind_ok.1 h
    cases h
    obtain ⟨value, v, hvalue, hgraph⟩ := bind_ok.1 hgraph
    cases value with
    | uri iri =>
      cases hgraph
      exact ⟨graph, congrArg Prod.fst hvalue, rfl⟩
    | literal => cases hgraph
    | typed => cases hgraph
  next hnone =>
    rw [PlacesDomain, hnone]
    cases h
    exact hm

/-- The graph of a domain node depends on what has been drawn, and that only if its generator draws. -/
theorem PlacesDomain.unique (h : PlacesDomain scene m node position s graph?)
    (h' : PlacesDomain scene m node position t graph?')
    (hdrawn : s.uuids = t.uuids ∨
      ∀ call, m.domain.graphGenerator? = some call → scene.engine.policy.draws call = false) :
    graph? = graph?' := by
  rw [PlacesDomain] at h h'
  split at h
  next call hcall =>
    rw [hcall] at h'
    obtain ⟨iri, hiri, rfl⟩ := h
    obtain ⟨iri', hiri', rfl⟩ := h'
    have hsame : generated scene call node position s = generated scene call node position t := by
      rcases hdrawn with huuids | hdraws
      · simp only [generated, generate, outcome_generation, huuids]
      · exact generated_congr (hdraws call hcall) s t
    rw [hiri, hiri'] at hsame
    cases hsame
    rfl
  next hnone =>
    rw [hnone] at h'
    exact h.unique h'

end

/-- A domain node that is processed from a state on gets a graph, once its entity has been resolved. -/
def GetsGraph (scene : Scene) (place : Place) (m : Mapping) (node : Location) (position : Nat)
    (s : RunState) (graph? : Option String) : Prop :=
  ∃ r u, outcome (Resolution.ofDomain scene place m node position s).run
      (Resolution.ofDomain scene place m node position s).state = (.ok r, u) ∧
    PlacesDomain scene m node position u graph?

theorem GetsGraph.unique {scene : Scene} {place : Place} {m : Mapping} {node : Location}
    {position : Nat} {s : RunState} {graph? graph?' : Option String}
    (h : GetsGraph scene place m node position s graph?)
    (h' : GetsGraph scene place m node position s graph?') : graph? = graph?' := by
  obtain ⟨r, u, hr, hgraph⟩ := h
  obtain ⟨r', u', hr', hgraph'⟩ := h'
  cases hr.symm.trans hr'
  exact hgraph.unique hgraph' (.inl rfl)

/-! ## Parts inside of a domain node -/

/-- A part belongs to a link of a mapping, which is followed with a graph for its domain. -/
inductive Part.BelongsTo (scene : Scene) (m : Mapping) (domainGraph? : Option String) (l : Link) :
    Part → Prop
  | link {place : Place} {node : Location} {id : Nat} :
    BelongsTo scene m domainGraph? l (.link scene place m node id domainGraph? l)
  | path {place : Place} {id : Nat} {linkGraph? : Option String} {joined : Bool} {node : Location}
      {position : Nat} :
    BelongsTo scene m domainGraph? l
      (.path ⟨scene, place, m, l, id, domainGraph?, linkGraph?⟩ joined node position)
  | range {place : Place} {id path : Nat} {linkGraph? : Option String} {ids : List Nat}
      {node : Location} {position : Nat} :
    BelongsTo scene m domainGraph? l
      (.range ⟨scene, place, m, l, id, domainGraph?, linkGraph?⟩ path ids node position)

section

variable {scene : Scene} {place : Place} {m : Mapping} {mappingGraph? domainGraph? : Option String}
  {node : Location} {position : Nat} {l : Link} {p q : Part} {s t u : RunState}

theorem Part.BelongsTo.opens (h : p.BelongsTo scene m domainGraph? l) (hq : p.Opens q) :
    q.BelongsTo scene m domainGraph? l := by
  cases h with
  | link =>
    cases hq
    exact .path
  | path =>
    cases hq
    exact .range
  | range => cases hq

/-- What is inside of a domain node belongs to a link of its mapping, and is followed with the graph of the
node. -/
theorem Part.Inside.belongsTo (hm : scene.NamesGraph none m.graph? mappingGraph?)
    (h : (Part.domain scene place m mappingGraph? node position).Inside s p u) :
    ∃ l ∈ m.links, l.skip = false ∧ ∃ graph?, p.BelongsTo scene m graph? l ∧
      GetsGraph scene place m node position s graph? := by
  obtain ⟨parts, t, hopened, hentered⟩ := h
  rcases openDomain_ok hopened with ⟨-, rfl, -⟩ | ⟨-, r, u', graph?, v, hr, -, hgraph, -, rfl⟩
  · cases hentered
  have hopens (p q : Part) (hp : ∃ l ∈ m.links, l.skip = false ∧ p.BelongsTo scene m graph? l)
      (hq : p.Opens q) : ∃ l ∈ m.links, l.skip = false ∧ q.BelongsTo scene m graph? l := by
    obtain ⟨l, hl, hskip, hp⟩ := hp
    exact ⟨l, hl, hskip, hp.opens hq⟩
  obtain ⟨l, hl, hskip, hp⟩ := hentered.property hopens fun p hp => by
    obtain ⟨_, l, hl, hskip, rfl⟩ := Part.mem_links hp
    exact ⟨l, List.mem_of_getElem? hl, hskip, .link⟩
  exact ⟨l, hl, hskip, graph?, hp, r, u', hr, placesDomain_of_domainGraph hm hgraph⟩

end

end Run

namespace Engine

open Crosswalk.Run

variable {engine : Engine} {seed : List UInt8} {document : Xml.Document} {s t u : RunState}

/-! ## What is gathered -/

/-- A domain node is entered with the graph that its mapping names. -/
theorem namesGraph_of_enters_domain {scene : Scene} {place : Place} {m : Mapping}
    {mappingGraph? : Option String} {node : Location} {position : Nat}
    (h : engine.Enters seed document (.domain scene place m mappingGraph? node position) s) :
    scene.NamesGraph none m.graph? mappingGraph? := by
  rcases opener_of_enters h with h | ⟨q, v, parts, t, hq, hopens, hopened, hleads⟩
  · cases h
  cases hopens with
  | domain =>
    obtain ⟨graph?, nodes, hgraph, -, -, -, rfl⟩ := openMapping_ok hopened
    obtain ⟨_, _, _, ⟨⟩⟩ := Part.mem_domains hleads.mem
    exact hgraph

/-- A domain node gathers the description of its entity, in its graph. -/
theorem gathered_by_domain {scene : Scene} {place : Place} {m : Mapping}
    {mappingGraph? : Option String} {node : Location} {position : Nat} {gathered : Gathered}
    {batch : Batch} (hm : scene.NamesGraph none m.graph? mappingGraph?)
    (h : outcome (Part.domain scene place m mappingGraph? node position).gather s = (.ok gathered, t))
    (hbatch : gathered.batch? = some batch) :
    ∃ graph? d, GetsGraph scene place m node position s graph? ∧
      (t.contexts.get 0).resolved? = some d ∧ batch.statements = d.dependents graph? := by
  rcases gatherDomain_ok h with ⟨-, rfl, -⟩ | ⟨-, r, v, graph?, hr, -, hgraph, rfl⟩
  · cases hbatch
  cases hbatch
  have hfresh := Context.isFresh_fresh .domain node position none
  obtain ⟨-, hawaits⟩ := awaits_of_run (x := .ofDomain scene place m node position s)
    (Resolution.isNew_entering hfresh none _ _) (linked_entering hfresh) hr
  have hreads := (domainGraph_reads scene m mappingGraph? node position).outcome hgraph
  have hawaits : t.contexts.Awaits 0 r := awaits_of_reads hawaits hreads
  refine ⟨graph?, r, ⟨r, v, hr, placesDomain_of_domainGraph hm hgraph⟩, hawaits.resolved?_eq, ?_⟩
  rw [hawaits.stage]

/-- A link that merges gathers the description of its range, in the graph of the link. -/
theorem gathered_by_link {scene : Scene} {place : Place} {m : Mapping} {node : Location} {id : Nat}
    {domainGraph? : Option String} {l : Link} {gathered : Gathered} {batch : Batch}
    (hentered : engine.Enters seed document (.link scene place m node id domainGraph? l) s)
    (h : outcome (gatherLink scene place m id domainGraph? l) s = (.ok gathered, t))
    (hbatch : gathered.batch? = some batch) :
    ∃ linkGraph?, scene.NamesGraph domainGraph? l.graph? linkGraph? ∧
      ∀ st ∈ batch.statements, st.graph? = linkGraph? := by
  obtain ⟨d, hd, -, -⟩ := written_of_enters_link hentered
  obtain ⟨_, t₁, h₁, h⟩ := bind_ok.1 h
  cases h₁
  obtain ⟨linkGraph?, t₂, h₂, h⟩ := bind_ok.1 h
  obtain ⟨rfl, hgraph⟩ := namedGraph_ok h₂
  obtain ⟨c, t₃, h₃, h⟩ := bind_ok.1 h
  rw [outcome_context] at h₃
  cases h₃
  refine ⟨linkGraph?, hgraph, ?_⟩
  split at h
  · obtain ⟨batch?, v, hmerged, h⟩ := bind_ok.1 h
    cases h
    rcases gatherMerge_ok (s := s.countLink)
        (l := ⟨scene, place, m, l, id, domainGraph?, linkGraph?⟩) hd.resolved?_eq hmerged with
      ⟨-, rfl, -⟩ | ⟨r, hr, rfl⟩
    · cases hbatch
    · have hfresh := Context.isFresh_fresh .range (s.contexts.get id).node (s.contexts.get id).position
        (some s.contexts.size)
      obtain ⟨-, hawaits⟩ := awaits_of_run
        (x := .merging scene place id l.range.target.entity d.value (s.contexts.get id).node
          (s.contexts.get id).position s.countLink)
        (Resolution.isNew_entering hfresh _ _ _) (linked_entering hfresh) hr
      cases hbatch
      rw [hawaits.stage]
      exact fun st hst => (Resolved.mem_dependents_iff.1 hst).graph?_eq
  · obtain ⟨parts, v, -, h⟩ := bind_ok.1 h
    cases h
    cases hbatch

/-- A range gathers statements for the graph of its link only: its domain has been described before. -/
theorem gathered_by_range {l : LinkSetting} {path : Nat} {ids : List Nat} {node : Location}
    {position : Nat} {gathered : Gathered} {batch : Batch}
    (hentered : engine.Enters seed document (.range l path ids node position) s)
    (h : outcome (Part.range l path ids node position).gather s = (.ok gathered, t))
    (hbatch : gathered.batch? = some batch) :
    l.scene.NamesGraph l.domainGraph? l.link.graph? l.linkGraph? ∧
      ∀ st ∈ batch.statements, st.graph? = l.linkGraph? := by
  obtain ⟨⟨d, hd, -, -⟩, hgraph, -⟩ := tracks_of_enters_range hentered
  rw [← (isOf_of_enters_range hentered).scene_eq] at hgraph
  refine ⟨hgraph, fun st hst => ?_⟩
  obtain ⟨batch?, v, hgathered, h⟩ := bind_ok.1 h
  cases h
  cases hbatch
  obtain ⟨r, domainValue, properties, -, -, -, hgathers⟩ := gathers_of_gatherRange hd.linked_eq hgathered
  rcases (hgathers.mem_statements st).1 hst with hst | ⟨_, _, r', -, hst⟩
  · exact graph?_of_mem_chainStatements hst
  · exact hst.graph?_eq

/-- A part that belongs to a link gathers statements for the graph of the link only. -/
theorem gathered_by_link_part {scene : Scene} {m : Mapping} {domainGraph? : Option String} {l : Link}
    {p : Part} {gathered : Gathered} {batch : Batch} (hp : p.BelongsTo scene m domainGraph? l)
    (hentered : engine.Enters seed document p s) (h : outcome p.gather s = (.ok gathered, t))
    (hbatch : gathered.batch? = some batch) :
    ∃ linkGraph?, scene.NamesGraph domainGraph? l.graph? linkGraph? ∧
      ∀ st ∈ batch.statements, st.graph? = linkGraph? := by
  cases hp with
  | link => exact gathered_by_link hentered h hbatch
  | path =>
    obtain ⟨parts, v, -, h⟩ := bind_ok.1 h
    cases h
    cases hbatch
  | range => exact ⟨_, gathered_by_range hentered h hbatch⟩

/-! ## Whole runs -/

/-- What is run in a domain node, the node itself or a part inside of it, gathers a batch. -/
structure GathersIn (domain : Part) (s₀ : RunState) (p : Part) (s t : RunState) (batch : Batch) : Prop where
  within : p = domain ∧ s = s₀ ∨ domain.Inside s₀ p s
  gathered : ∃ parts, outcome p.gather s = (.ok ⟨some batch, parts⟩, t)

theorem depth_le_of_gathered {p : Part} {batch : Batch} {parts : List Part}
    (h : outcome p.gather s = (.ok ⟨some batch, parts⟩, t)) : p.depth ≤ 3 := by
  cases p with
  | mapping =>
    obtain ⟨_, _, -, h⟩ := bind_ok.1 h
    cases h
  | _ => simp [Part.depth]

/-- What an opening adds to the graph has been gathered by it. -/
theorem exists_gathered_of_opening {p : Part} {parts : List Part} {q : Rdf.Quad}
    (h : outcome p.opening s = (.ok parts, t)) (hs : q ∉ s.graph.quads) (ht : q ∈ t.graph.quads) :
    ∃ batch u, outcome p.gather s = (.ok ⟨some batch, parts⟩, u) ∧
      ∃ st ∈ batch.statements, st.quad = .ok q := by
  obtain ⟨⟨batch?, _⟩, u, hgathered, hwritten, rfl⟩ := Part.opening_ok h
  have hquiet := (gather_quiet allows_sameDiagnostics fun _ _ _ => rfl).outcome hgathered
  rw [← hquiet.graph_eq] at hs
  have hadded (batch : Batch) (v : RunState) (hcommit : outcome (commit batch) u = (.ok (), v))
      (hv : q ∈ v.graph.quads) : ∃ st ∈ batch.statements, st.quad = .ok q := by
    rw [outcome_commit] at hcommit
    rcases hadd : u.graph.add batch.statements with e | graph <;> rw [hadd] at hcommit
    · cases hcommit
    · cases hcommit
      exact (((Rdf.Graph.gains_of_add hadd).mem_iff q).1 hv).resolve_left hs
  cases batch? with
  | none => cases p <;> (cases hwritten; exact absurd ht hs)
  | some batch =>
    refine ⟨batch, u, hgathered, ?_⟩
    cases p with
    | domain => exact hadded batch t hwritten ht
    | _ =>
      obtain ⟨⟨⟩, v, hcommit, hcounted⟩ := bind_ok.1 hwritten
      cases hcounted
      exact hadded batch v hcommit ht

/-- A domain node leaves the graph as it was if it is filtered out or gets no graph. -/
theorem graph_of_domain_without_graph {scene : Scene} {place : Place} {m : Mapping}
    {mappingGraph? : Option String} {node : Location} {position : Nat}
    (hm : scene.NamesGraph none m.graph? mappingGraph?)
    (h : Condition.guardFails scene.conditionSetting node m.domain.target.condition? = .ok true ∨
      ∀ graph?, ¬ GetsGraph scene place m node position s graph?) :
    (after (Part.domain scene place m mappingGraph? node position).guarded s).graph = s.graph := by
  have hrun : (after (Part.domain scene place m mappingGraph? node position).run s).graph = s.graph := by
    rw [Part.run_eq, after_bind]
    rcases hopened : outcome (Part.domain scene place m mappingGraph? node position).opening s with
      ⟨e | parts, t⟩
    · exact graph_opening_of_error hopened
    rcases openDomain_ok hopened with ⟨-, rfl, -, hgraph⟩ | ⟨hpasses, r, u, graph?, v, hr, -, hgraph, -, -⟩
    · exact hgraph
    · rcases h with hfiltered | hnone
      · cases hfiltered.symm.trans hpasses
      · exact absurd ⟨r, u, hr, placesDomain_of_domainGraph hm hgraph⟩ (hnone graph?)
  rw [← hrun, Part.guarded, after, outcome_tryCatch, after]
  rcases outcome (Part.domain scene place m mappingGraph? node position).run s with ⟨e | _, t⟩
  · cases e <;> rfl
  · rfl

/-- Maps the nodes of a name, with a generator for their graphs. -/
def archiveMapping (name : String) (graphGenerator? : Option GeneratorCall) (links : List Link)
    (graph? : Option String) : Mapping :=
  let entity : Entity := ⟨["<urn:" ++ name ++ ">"], some ⟨"UUID", []⟩, [], [], none, none⟩
  ⟨⟨"/archive/" ++ name, ⟨entity, none⟩, graphGenerator?⟩, links, graph?, false⟩

/-- Persons have graphs of their own. -/
def archivedPersons : Mapping :=
  archiveMapping "person" (some ⟨"namedgraphURI", [⟨"text", .xpath, "@graph", none⟩]⟩) []
    (some "<urn:persons>")

/-- Graphs of books cannot be made, and places have none, but the link from a place to its name has one. -/
def archiveEngine : Engine :=
  let name : Entity := ⟨["<urn:Name>"], some ⟨"UUID", []⟩, [], [], none, none⟩
  let named : Link :=
    ⟨⟨["name"], []⟩, ⟨none, ["<urn:named>"], []⟩, ⟨"name", ⟨name, none⟩⟩, some "<urn:names>", false⟩
  ⟨⟨.builtin,
    [archivedPersons,
      archiveMapping "book" (some ⟨"Literal", [⟨"text", .xpath, ".", none⟩]⟩) [] none,
      archiveMapping "place" none [named] none]⟩,
    .empty, none, { Settings.default with uuidWidth? := some 2 }⟩

def archive : Xml.Document :=
  let element (name : String) (attributes : List Xml.Attribute) (content : List Xml.Content) :
      Xml.Content := .element ⟨none, name⟩ [] attributes content
  ⟨[element "archive" []
    [element "person" [⟨⟨none, "graph"⟩, "urn:ada"⟩] [], element "book" [] [.text "b"],
      element "place" [] [element "name" [] []]]]⟩

/-- Whether a part gathers so many statements, all of them for one graph. -/
def gathersFor (graph? : Option String) (size : Nat) (p : Part) (s : RunState) : Bool :=
  match outcome p.gather s with
  | (.ok ⟨some batch, _⟩, _) =>
    batch.statements.length == size && batch.statements.all (·.graph? == graph?)
  | _ => false

/-- Whether a part is a domain node that gathers so many statements for one graph, and parts of its links
gather so many for another one. -/
def gathersApart (graph? linkGraph? : Option String) (size linkSize : Nat) : Part × RunState → Bool
  | (.domain scene place m mappingGraph? node position, s) =>
    let domain := Part.domain scene place m mappingGraph? node position
    gathersFor graph? size domain s &&
      match outcome domain.opening s with
      | (.ok parts, t) => (visits 8 parts t).any fun (p, u) => gathersFor linkGraph? linkSize p u
      | _ => false
  | _ => false

theorem gathered_of_gathersFor {graph? : Option String} {size : Nat} {p : Part}
    (h : gathersFor graph? size p s = true) :
    ∃ batch parts t, outcome p.gather s = (.ok ⟨some batch, parts⟩, t) ∧
      batch.statements.length = size := by
  rw [gathersFor] at h
  split at h
  next batch parts t ok =>
    rw [Bool.and_eq_true, beq_iff_eq] at h
    exact ⟨batch, parts, t, ok, h.1⟩
  next => cases h

theorem exists_of_gathersApart {graph? linkGraph? : Option String} {size linkSize : Nat}
    (h : (visits 12 (engine.parts document) (engine.start seed)).any
      (gathersApart graph? linkGraph? size linkSize) = true) :
    ∃ place m mappingGraph? node position s₀,
      let domain := Part.domain (engine.scene document) place m mappingGraph? node position
      engine.Enters seed document domain s₀ ∧ gathersFor graph? size domain s₀ = true ∧
        ∃ p s, domain.Inside s₀ p s ∧ gathersFor linkGraph? linkSize p s = true := by
  obtain ⟨⟨p, s₀⟩, hmem, htest⟩ := List.any_eq_true.1 h
  cases p with
  | domain scene place m mappingGraph? node position =>
    have hentered : engine.Enters seed document (.domain scene place m mappingGraph? node position) s₀ :=
      entered_of_mem_visits hmem
    obtain ⟨rfl, -⟩ := Part.occursIn_of_enters hentered
    rw [gathersApart, Bool.and_eq_true] at htest
    obtain ⟨hdomain, htest⟩ := htest
    split at htest
    next parts t hopened =>
      obtain ⟨⟨p, s⟩, hinner, hp⟩ := List.any_eq_true.1 htest
      exact ⟨place, m, mappingGraph?, node, position, s₀, hentered, hdomain, p, s,
        ⟨parts, t, hopened, entered_of_mem_visits hinner⟩, hp⟩
    next => cases htest
  | _ => cases htest

/-- Whether a part is a domain node whose generator gives no graph, whatever was drawn before. -/
def lacksGraph : Part × RunState → Bool
  | (.domain scene _ m _ node position, s) =>
    match m.domain.graphGenerator? with
    | some call => !scene.engine.policy.draws call &&
      match generated scene call node position s with
      | .ok (.uri _) => false
      | _ => true
    | none => false
  | _ => false

theorem not_getsGraph_of_lacksGraph {scene : Scene} {place : Place} {m : Mapping}
    {mappingGraph? : Option String} {node : Location} {position : Nat}
    (h : lacksGraph (.domain scene place m mappingGraph? node position, s) = true)
    (graph? : Option String) : ¬ GetsGraph scene place m node position s graph? := by
  rintro ⟨r, u, -, hgraph⟩
  rw [lacksGraph] at h
  rw [PlacesDomain] at hgraph
  split at h
  next call hcall =>
    rw [Bool.and_eq_true, Bool.not_eq_true'] at h
    rw [hcall] at hgraph
    obtain ⟨iri, hiri, -⟩ := hgraph
    rw [generated_congr h.1 u s] at hiri
    rw [hiri] at h
    exact Bool.false_ne_true h.2
  next => cases h

theorem exists_of_lacksGraph
    (h : (visits 12 (engine.parts document) (engine.start seed)).any lacksGraph = true) :
    ∃ place m mappingGraph? node position s,
      let domain := Part.domain (engine.scene document) place m mappingGraph? node position
      engine.Enters seed document domain s ∧
        ∀ graph?, ¬ GetsGraph (engine.scene document) place m node position s graph? := by
  obtain ⟨⟨p, s⟩, hmem, htest⟩ := List.any_eq_true.1 h
  cases p with
  | domain scene place m mappingGraph? node position =>
    have hentered : engine.Enters seed document (.domain scene place m mappingGraph? node position) s :=
      entered_of_mem_visits hmem
    obtain ⟨rfl, -⟩ := Part.occursIn_of_enters hentered
    exact ⟨place, m, mappingGraph?, node, position, s, hentered, not_getsGraph_of_lacksGraph htest⟩
  | _ => cases htest

end Engine

end Crosswalk
