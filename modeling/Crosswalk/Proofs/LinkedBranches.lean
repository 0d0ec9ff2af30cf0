import Crosswalk.Proofs.Growing
import Crosswalk.Proofs.ValidMappings

/-!
# Linked branches

A range that is linked adds to the graph the descriptions of the domain entity, of the intermediate
entities and of its own entity, and the chain of properties through them. The first two are often
there already, written for a sibling of the range. So what has to be carried along a run is that an entity
which counts as written has its description in the graph: for the domain entity from its own opening on,
and for the intermediate entities of a path along the ranges of the path.
-/

namespace Crosswalk

open Crosswalk.Rdf (Statement)
open Crosswalk.Xml (Location)

namespace Run

variable {s t : RunState}

/-! ## What counts as written -/

/-- The entity of a context has been resolved, and its description is in the graph. -/
structure Written (graph? : Option String) (id : Nat) (r : Resolved) (s : RunState) : Prop where
  resolved?_eq : (s.contexts.get id).resolved? = some r
  linked_eq : (s.contexts.get id).linked = true
  holds : s.graph.Holds (r.States graph?)

theorem Written.grows {graph? : Option String} {id : Nat} {r : Resolved}
    (h : Written graph? id r s) (hst : Grows s t) : Written graph? id r t :=
  ⟨hst.contexts.resolved id r h.resolved?_eq, hst.linked id h.linked_eq, h.holds.mono hst.graph⟩

/-- The entity of a context has been resolved, and if it counts as written its description is in the
graph. -/
structure Tracks (graph? : Option String) (s : RunState) (id : Nat) (r : Resolved) : Prop where
  resolved?_eq : (s.contexts.get id).resolved? = some r
  holds : (s.contexts.get id).linked = true → s.graph.Holds (r.States graph?)

theorem Tracks.reads {graph? : Option String} {id n : Nat} {r : Resolved}
    (h : Tracks graph? s id r) (hst : Reads n s t) : Tracks graph? t id r where
  resolved?_eq := hst.extends.resolved id r h.resolved?_eq
  holds hid := by
    rw [hst.linked_eq] at hid
    rw [hst.graph_eq]
    exact h.holds hid

/-- A context that awaits its description gets it when it is marked. -/
theorem Tracks.link {graph? : Option String} {id : Nat} {r : Resolved} (h : Tracks graph? s id r)
    {batch : Batch} {graph : Rdf.Graph} (hadd : s.graph.add batch.statements = .ok graph)
    {ids : List Nat} {others : Rdf.Statement → Prop}
    (hbatch : batch.Gathers s.contexts graph? others ids) : Tracks graph? (s.link batch graph) id r where
  resolved?_eq := by
    rw [← h.resolved?_eq]
    exact Contexts.resolved?_get_markLinked ..
  holds hid := by
    have hgains := Rdf.Graph.gains_of_add hadd
    rcases Contexts.linked_of_markLinked hid with hid | hid
    · exact (h.holds hid).mono hgains.subset
    · obtain ⟨hmem, r', hawaits⟩ := (hbatch.mem_contexts id).1 hid
      obtain rfl : r' = r := Option.some.inj (hawaits.resolved?_eq.symm.trans h.resolved?_eq)
      exact fun st hst => hgains.holds st ((hbatch.mem_statements st).2 (.inr ⟨id, hmem, r', hawaits, hst⟩))

/-- What is written on its own is written as a whole. -/
theorem link_ok {graph? : Option String} {id : Nat} {r : Resolved} (hr : s.contexts.Awaits id r)
    (h : outcome (Run.link id graph?) s = (.ok (), t)) :
    s.graph.Gains t.graph (r.States graph?) ∧ Written graph? id r t ∧ t.counters = s.counters := by
  have hlive : id < s.contexts.size := Contexts.lt_size_of_resolved? hr.resolved?_eq
  rw [outcome_link, hr.stage, outcome_commit] at h
  rcases hadd : s.graph.add (r.dependents graph?) with e | graph <;> rw [hadd] at h
  · cases h
  · cases h
    have hgains := (Rdf.Graph.gains_of_add hadd).extend (fun _ => Resolved.mem_dependents_iff.1)
      fun _ hst => .inl (Resolved.mem_dependents_iff.2 hst)
    refine ⟨hgains, ⟨?_, ?_, hgains.holds⟩, rfl⟩
    · rw [← hr.resolved?_eq]
      exact Contexts.resolved?_get_markLinked ..
    · exact congrArg Context.linked (Contexts.get_update_of_lt hlive)

/-- The context of an entity that has just been resolved. -/
theorem awaits_of_run {x : Resolution} {r : Resolved} (hx : x.IsNew)
    (hlinked : (x.state.contexts.get x.id).linked = false)
    (h : outcome x.run x.state = (.ok r, t)) : Reads 0 x.state t ∧ t.contexts.Awaits x.id r := by
  obtain ⟨hreads, hnoted⟩ := Resolution.reads_of_run hx h
  exact ⟨hreads, by rw [hreads.linked_eq, hlinked], hnoted⟩

theorem linked_entering {scene : Scene} {place : Place} {c : Context} (hc : c.IsFresh)
    {identity? : Option Value} {entity : Entity} :
    ((Resolution.entering scene place c identity? entity s).state.contexts.get
      (Resolution.entering scene place c identity? entity s).id).linked = false := by
  have hnew : (s.contexts.get s.contexts.size).linked = false := by
    rw [Contexts.get_of_size_le (Nat.le_refl _)]
    rfl
  exact (Contexts.linked_get_push hc ..).trans hnew

theorem awaits_of_reads {n id : Nat} {r : Resolved} (h : s.contexts.Awaits id r)
    (hst : Reads n s t) : t.contexts.Awaits id r :=
  ⟨by rw [hst.linked_eq, h.linked_eq], hst.extends.resolved id r h.resolved?_eq⟩

/-- An entity that is resolved and then written on its own is described, and nothing else is written. -/
theorem link_of_run {x : Resolution} {r : Resolved} {graph? : Option String} {u w : RunState}
    (hx : x.IsNew) (hlinked : (x.state.contexts.get x.id).linked = false)
    (hr : outcome x.run x.state = (.ok r, u)) (hreads : Reads 0 u w)
    (hlink : outcome (Run.link x.id graph?) w = (.ok (), t)) :
    x.state.graph.Gains t.graph (r.States graph?) ∧ Written graph? x.id r t ∧
      t.counters = x.state.counters := by
  obtain ⟨hrun, hawaits⟩ := awaits_of_run hx hlinked hr
  obtain ⟨hgains, hwritten, hcounters⟩ := link_ok (awaits_of_reads hawaits hreads) hlink
  rw [hreads.graph_eq, hrun.graph_eq] at hgains
  exact ⟨hgains, hwritten, by rw [hcounters, hreads.counters_eq, hrun.counters_eq]⟩

/-- The intermediate entities of a path are resources, in the order of their descriptions, and none of
them has been written. -/
theorem awaits_of_intermediates {l : LinkSetting} {path position k : Nat} {node : Location}
    {entities : List Entity} {ids : List Nat}
    (h : outcome (intermediates l path node position k entities) s = (.ok ids, t)) :
    ∃ vs, List.Forall₂ (fun e v => v.value.isUri ∧ e.IsRealizedBy l.scene.namespaces v) entities vs ∧
      List.Forall₂ t.contexts.Awaits ids vs := by
  induction entities generalizing k s ids with
  | nil =>
    cases h
    exact ⟨[], .nil, .nil⟩
  | cons entity rest ih =>
    rw [intermediates_cons] at h
    obtain ⟨id, t₁, h₁, h⟩ := bind_ok.1 h
    rw [outcome_enter] at h₁
    cases h₁
    obtain ⟨r, t₂, h₂, h⟩ := bind_ok.1 h
    have hr := resolveIntermediate_ok.1 h₂
    split at h
    next huri =>
      obtain ⟨others, t₃, hothers, h⟩ := bind_ok.1 h
      cases h
      obtain ⟨vs, hrealized, hawaits⟩ := ih hothers
      have hfresh := Context.isFresh_fresh (.intermediate k) node position (some path)
      have hnew : (Resolution.entering l.scene l.place (.fresh (.intermediate k) node position
        (some path)) none entity s).IsNew := Resolution.isNew_entering hfresh none entity s
      obtain ⟨-, hfirst⟩ := awaits_of_run hnew (linked_entering hfresh) hr
      have hreads := after_eq hothers ▸ (intermediates_meets l path node position (k + 1) rest t₂).1
      exact ⟨r :: vs, .cons ⟨huri, Resolution.isRealizedBy_of_run hnew hr⟩ hrealized,
        .cons (awaits_of_reads hfirst hreads) hawaits⟩
    next => cases h

/-! ## The step of a range -/

section

variable {l : LinkSetting} {path position : Nat} {ids : List Nat} {node : Location} {d : Resolved}
  {vs : List Resolved} {batch : Batch} {result : Except Fault Unit} {u : RunState}

/-- Where the domain entity is described, a range gathers what is still to be written of the contexts
behind it, and the chain. -/
theorem gathers_of_gatherRange (hd : (s.contexts.get l.domain).linked = true)
    (h : outcome (gatherRange l path ids node position) s = (.ok (some batch), t)) :
    ∃ r domainValue properties,
      outcome (Resolution.ofRange l path node position s).run
        (Resolution.ofRange l path node position s).state = (.ok r, t) ∧
      (t.contexts.get l.domain).resolved?.map (·.value) = some domainValue ∧
      l.link.target.relationships.mapM l.scene.namespaces.expand = .ok properties ∧
      batch.Gathers t.contexts l.linkGraph? (· ∈ chainStatements l.linkGraph? domainValue.text properties
        (ids.map fun id => (t.contexts.get id).resolved?.map (·.value)) r.value)
        (ids ++ [s.contexts.size]) := by
  have hreads := after_eq h ▸ gatherRange_reads l path ids node position s
  rcases gatherRange_ok h with ⟨⟨⟩, -⟩ | ⟨r, domainValue, properties, hr, hvalue, hproperties, hbatch⟩
  refine ⟨r, domainValue, properties, hr, hvalue, hproperties, ?_⟩
  have hdomain : Batch.empty.stage t.contexts l.domainGraph? l.domain = .empty := by
    rw [Batch.stage, hreads.linked_eq, hd]
    rfl
  rw [hdomain] at hbatch
  have hempty : Batch.empty.Gathers t.contexts l.linkGraph? (fun _ => False) [] := .empty
  have hgathers := ((hempty.stageAll ids).append
    (chainStatements l.linkGraph? domainValue.text properties
      (ids.map fun id => (t.contexts.get id).resolved?.map (·.value)) r.value)).stage s.contexts.size
  simp only [false_or] at hgathers
  exact Option.some.inj hbatch ▸ hgathers

/-- The step of a range keeps track of the intermediate entities of its path. -/
theorem tracks_of_linkRange (hd : (s.contexts.get l.domain).linked = true)
    (hvs : List.Forall₂ (Tracks l.linkGraph? s) ids vs)
    (h : outcome (linkRange l path ids node position) s = (result, t)) :
    List.Forall₂ (Tracks l.linkGraph? t) ids vs := by
  rcases linkRange_cases h with hreads | ⟨u, batch, graph, hgather, hreads, hadd, rfl⟩
  · exact hvs.imp fun _ _ hr => hr.reads hreads
  · obtain ⟨_, _, _, -, -, -, hgathers⟩ := gathers_of_gatherRange hd hgather
    exact hvs.imp fun _ _ hr => (hr.reads hreads).link hadd hgathers

theorem tracks_of_guarded (hd : (s.contexts.get l.domain).linked = true)
    (hvs : List.Forall₂ (Tracks l.linkGraph? s) ids vs)
    (h : outcome (Part.range l path ids node position).guarded s = (.ok (), t)) :
    List.Forall₂ (Tracks l.linkGraph? t) ids vs := by
  rw [Part.guarded, outcome_tryCatch] at h
  rcases hrun : outcome (Part.range l path ids node position).run s with ⟨e | _, u⟩ <;> rw [hrun] at h
  · have hu := tracks_of_linkRange hd hvs hrun
    cases e with
    | drop cause =>
      cases h
      exact hu.imp fun _ _ hr => ⟨hr.resolved?_eq, hr.holds⟩
    | abort e => cases h
  · cases h
    exact tracks_of_linkRange hd hvs hrun

/-- What a range adds: the descriptions of all the entities of its branch, and the chain. -/
def BranchStates (l : LinkSetting) (d : Resolved) (vs : List Resolved) (r : Resolved)
    (properties : List String) (st : Statement) : Prop :=
  d.States l.domainGraph? st ∨ (∃ v ∈ vs, v.States l.linkGraph? st) ∨ r.States l.linkGraph? st ∨
    Chained l.linkGraph? (d.value :: vs.map (·.value) ++ [r.value]) properties st

/-- A batch that is written for a range completes its branch. -/
theorem gains_of_gathered {size : Nat} {r : Resolved} {properties : List String} {graph : Rdf.Graph}
    {values : List (Option Value)} (hd : Written l.domainGraph? l.domain d s)
    (hvs : List.Forall₂ (Tracks l.linkGraph? s) ids vs) (hr : s.contexts.Awaits size r)
    (hvalues : values = (vs.map (·.value)).map some) (hlength : properties.length = vs.length + 1)
    (hgathers : batch.Gathers s.contexts l.linkGraph? (· ∈ chainStatements l.linkGraph? d.value.text
      properties values r.value) (ids ++ [size]))
    (hadd : s.graph.add batch.statements = .ok graph) :
    s.graph.Gains graph (BranchStates l d vs r properties) := by
  have hchain (st : Statement) : st ∈ chainStatements l.linkGraph? d.value.text properties values
      r.value ↔ Chained l.linkGraph? (d.value :: vs.map (·.value) ++ [r.value]) properties st := by
    rw [hvalues]
    exact mem_chainStatements_iff (by rw [hlength, List.length_map])
  refine (Rdf.Graph.gains_of_add hadd).extend (fun st hst => ?_) (fun st hst => ?_)
  · rcases (hgathers.mem_statements st).1 hst with hst | ⟨id, hid, r', hr', hst⟩
    · exact .inr (.inr (.inr ((hchain st).1 hst)))
    rcases List.mem_append.1 hid with hid | hid
    · obtain ⟨v, hv, htracks⟩ := exists_mem_right_of_forall₂ hvs hid
      obtain rfl : r' = v := Option.some.inj (hr'.resolved?_eq.symm.trans htracks.resolved?_eq)
      exact .inr (.inl ⟨r', hv, hst⟩)
    · obtain rfl := List.mem_singleton.1 hid
      obtain rfl : r' = r := Option.some.inj (hr'.resolved?_eq.symm.trans hr.resolved?_eq)
      exact .inr (.inr (.inl hst))
  · rw [hgathers.mem_statements]
    rcases hst with hst | ⟨v, hv, hst⟩ | hst | hst
    · exact .inr (hd.holds st hst)
    · obtain ⟨id, hid, htracks⟩ := exists_mem_left_of_forall₂ hvs hv
      cases hlinked : (s.contexts.get id).linked with
      | true => exact .inr (htracks.holds hlinked st hst)
      | false =>
        exact .inl (.inr ⟨id, List.mem_append_left _ hid, v, ⟨hlinked, htracks.resolved?_eq⟩, hst⟩)
    · exact .inl (.inr ⟨size, by simp, r, hr, hst⟩)
    · exact .inl (.inl ((hchain st).2 hst))

/-- The step of a range either links nothing and writes nothing, or it completes the branch. -/
theorem gains_of_linkRange (hd : Written l.domainGraph? l.domain d s)
    (hvs : List.Forall₂ (Tracks l.linkGraph? s) ids vs)
    (hlength : l.link.target.relationships.length = vs.length + 1)
    (h : outcome (linkRange l path ids node position) s = (.ok (), t)) :
    t.counters.rangesLinked = s.counters.rangesLinked ∧ t.graph = s.graph ∨
      t.counters.rangesLinked = s.counters.rangesLinked + 1 ∧ ∃ r properties u,
        outcome (Resolution.ofRange l path node position s).run
          (Resolution.ofRange l path node position s).state = (.ok r, u) ∧
        l.link.target.relationships.mapM l.scene.namespaces.expand = .ok properties ∧
        s.graph.Gains t.graph (BranchStates l d vs r properties) := by
  rcases linkRange_cases h with hreads | ⟨u, batch, graph, hgather, hreads, hadd, rfl⟩
  · exact .inl ⟨by rw [hreads.counters_eq], hreads.graph_eq⟩
  · obtain ⟨r, domainValue, properties, hr, hvalue, hproperties, hgathers⟩ :=
      gathers_of_gatherRange hd.linked_eq hgather
    have hdu := hd.grows hreads.grows
    have hvsu := hvs.imp fun _ _ hv => hv.reads hreads
    rw [hdu.resolved?_eq] at hvalue
    cases hvalue
    have hfresh := Context.isFresh_fresh .range node position (some path)
    have hnew : (Resolution.ofRange l path node position s).IsNew :=
      Resolution.isNew_entering hfresh none l.link.range.target.entity s
    obtain ⟨-, hawaits⟩ := awaits_of_run hnew (linked_entering hfresh) hr
    have hvalues : ids.map (fun id => (u.contexts.get id).resolved?.map (·.value)) =
        (vs.map (·.value)).map some := by
      rw [List.map_map, ← List.forall₂_eq_eq_eq, List.forall₂_map_left_iff, List.forall₂_map_right_iff]
      exact hvsu.imp fun _ _ hv => by rw [hv.resolved?_eq]; rfl
    have hpropertiesLength := (mapM_eq_ok_iff.1 hproperties).length_eq
    have hgains := gains_of_gathered hdu hvsu hawaits hvalues (hpropertiesLength ▸ hlength) hgathers hadd
    rw [hreads.graph_eq] at hgains
    refine .inr ⟨?_, r, properties, u, hr, hproperties, hgains⟩
    rw [← hreads.counters_eq]
    rfl

/-- The step of a link that merges either merges nothing and writes nothing, or it writes the description of
the range with the value of the domain. -/
theorem gains_of_linkMerge {l : LinkSetting} (hd : (s.contexts.get l.domain).resolved? = some d)
    (h : outcome (linkMerge l node position) s = (.ok (), t)) :
    t.counters.rangesLinked = s.counters.rangesLinked ∧ t.graph = s.graph ∨
      t.counters.rangesLinked = s.counters.rangesLinked + 1 ∧ ∃ r u,
        outcome (Resolution.merging l.scene l.place l.domain l.link.range.target.entity d.value node
          position s).run (Resolution.merging l.scene l.place l.domain l.link.range.target.entity d.value
          node position s).state = (.ok r, u) ∧
        r.value = d.value ∧ s.graph.Gains t.graph (r.States l.linkGraph?) := by
  rcases linkMerge_ok hd h with ⟨-, hcounters, hgraph⟩ | ⟨r, u, v, hr, hlink, rfl⟩
  · exact .inl ⟨by rw [hcounters], hgraph⟩
  have hrange := Context.isFresh_fresh .range node position (some s.contexts.size)
  have hnew : (Resolution.merging l.scene l.place l.domain l.link.range.target.entity d.value node
      position s).IsNew :=
    Resolution.isNew_entering hrange (some d.value) l.link.range.target.entity _
  obtain ⟨hgains, -, hcounters⟩ := link_of_run hnew (linked_entering hrange) hr .refl hlink
  refine .inr ⟨?_, r, u, hr, Resolution.value_of_identity hnew rfl hr, hgains⟩
  dsimp only
  rw [hcounters]
  rfl

end

end Run

namespace Engine

open Crosswalk.Run

variable {engine : Engine} {seed : List UInt8} {document : Xml.Document} {s t : RunState}

/-- The entity of a domain node is resolved and described before its links are followed. -/
theorem written_of_enters_link {scene : Scene} {place : Place} {m : Mapping} {node : Location}
    {id : Nat} {domainGraph? : Option String} {l : Link}
    (h : engine.Enters seed document (.link scene place m node id domainGraph? l) s) :
    ∃ d, Written domainGraph? id d s ∧ d.value.isUri ∧
      m.domain.target.entity.IsRealizedBy engine.namespaces d := by
  obtain ⟨position, v, d, u, w, t, hx, hd, huri, hgraph, hlink, rfl, hgrows⟩ := domain_of_enters_link h
  obtain ⟨rfl, -⟩ := Part.occursIn_of_enters h
  obtain ⟨-, hwritten, -⟩ :=
    link_of_run hx.isNew (linked_entering (Context.isFresh_fresh ..)) hd hgraph hlink
  exact ⟨d, hwritten.grows hgrows, huri, Resolution.isRealizedBy_of_run hx.isNew hd⟩

/-- The domain entity of a range is described, and so are those of its intermediate entities that count as
written. -/
theorem tracks_of_enters_range {l : LinkSetting} {path : Nat} {ids : List Nat} {node : Location}
    {position : Nat} (h : engine.Enters seed document (.range l path ids node position) s) :
    (∃ d, Written l.domainGraph? l.domain d s ∧ d.value.isUri ∧
      l.mapping.domain.target.entity.IsRealizedBy engine.namespaces d) ∧
    (engine.scene document).NamesGraph l.domainGraph? l.link.graph? l.linkGraph? ∧
    ∃ vs, List.Forall₂ (fun e v => v.value.isUri ∧ e.IsRealizedBy engine.namespaces v)
      l.link.target.entities vs ∧ List.Forall₂ (Tracks l.linkGraph? s) ids vs := by
  obtain ⟨joined, pathNode, pathPosition, v, k, nodes, t, hpath, hv, rfl, hids, hleads, -⟩ :=
    path_of_enters_range h
  obtain ⟨domainNode, u, hlink, hgraph, hu⟩ := link_of_enters_path hpath
  obtain ⟨d, hd, huri, hrealized⟩ := written_of_enters_link hlink
  have hdt := (hd.grows hu).grows hv
  have hscene : l.scene.namespaces = engine.namespaces :=
    congrArg Scene.namespaces (isOf_of_enters_path hpath).scene_eq
  obtain ⟨vs, hvs, hawaits⟩ := awaits_of_intermediates hids
  have htracks : List.Forall₂ (Tracks l.linkGraph? t) ids vs :=
    hawaits.imp fun id r hr => ⟨hr.resolved?_eq, fun hlinked => by cases hr.linked_eq.symm.trans hlinked⟩
  have hkept := hleads.keeps (P := fun u => Written l.domainGraph? l.domain d u ∧
    List.Forall₂ (Tracks l.linkGraph? u) ids vs) (fun p hp u w hu hguarded => ?_) ⟨hdt, htracks⟩
  · exact ⟨⟨d, hkept.1, huri, hrealized⟩, hgraph, vs, hscene ▸ hvs, hkept.2⟩
  · obtain ⟨_, _, _, rfl⟩ := Part.mem_ranges hp
    exact ⟨hu.1.grows (grows_of_guarded (by simp [Part.depth]) hguarded),
      tracks_of_guarded hu.1.linked_eq hu.2 hguarded⟩

/-! ## Relations that fit -/

/-- A link of a mapping that is valid has one relationship more than entities in between, unless it
merges. -/
theorem relationships_length_of_validate (valid : engine.validate = .ok ()) {l : LinkSetting}
    (hl : l.IsOf engine document) :
    l.link.target.relationships.length = l.link.target.entities.length + 1 := by
  have hmem : l.link ∈ engine.mapping.links :=
    MappingDocument.mem_links.2 ⟨_, hl.mapping_mem, hl.mapping_kept, hl.link_mem, hl.link_kept⟩
  exact ((validate_iff.1 valid).links l.link hmem).fits hl.isMerge_eq

/-! ## Whole runs -/

/-- The entities of a branch: that of the domain node, those of the path in their order, and that
of the range; and the properties between them. -/
structure Branch (engine : Engine) (l : LinkSetting) (ids : List Nat) (s : RunState) (d : Resolved)
    (vs : List Resolved) (r : Resolved) (properties : List String) : Prop where
  domain_eq : (s.contexts.get l.domain).resolved? = some d
  domain_isUri : d.value.isUri
  domain_realized : l.mapping.domain.target.entity.IsRealizedBy engine.namespaces d
  intermediates_eq : List.Forall₂ (fun id v => (s.contexts.get id).resolved? = some v) ids vs
  intermediates_realized : List.Forall₂
    (fun e v => v.value.isUri ∧ e.IsRealizedBy engine.namespaces v) l.link.target.entities vs
  range_realized : l.link.range.target.entity.IsRealizedBy engine.namespaces r
  properties_eq : l.link.target.relationships.mapM engine.namespaces.expand = .ok properties
  properties_length : properties.length = vs.length + 1

/-- The step of a range that links it adds to the graph exactly its branch: the descriptions of the domain
entity in the graph of the domain, those of the intermediate entities and of the range in the graph of the
link, and the chain of properties from the domain through the intermediate values to the range. A link that
merges adds exactly the description of the range with the value of the domain for its subject. No other
step of a range or of a link that merges, if it ends, adds anything. -/
theorem gains_of_linked (valid : engine.validate = .ok ()) :
    (∀ (l : LinkSetting) (path : Nat) (ids : List Nat) (node : Location) (position : Nat)
        (s t : RunState), engine.Enters seed document (.range l path ids node position) s →
      outcome (linkRange l path ids node position) s = (.ok (), t) →
      t.counters.rangesLinked = s.counters.rangesLinked ∧ t.graph = s.graph ∨
      t.counters.rangesLinked = s.counters.rangesLinked + 1 ∧
        (engine.scene document).NamesGraph l.domainGraph? l.link.graph? l.linkGraph? ∧
        ∃ d vs r properties u, engine.Branch l ids s d vs r properties ∧
          outcome (Resolution.ofRange l path node position s).run
            (Resolution.ofRange l path node position s).state = (.ok r, u) ∧
          s.graph.Gains t.graph fun st =>
            d.States l.domainGraph? st ∨ (∃ v ∈ vs, v.States l.linkGraph? st) ∨
              r.States l.linkGraph? st ∨
              Chained l.linkGraph? (d.value :: vs.map (·.value) ++ [r.value]) properties st) ∧
    ∀ (scene : Scene) (place : Place) (m : Mapping) (node : Location) (id : Nat)
        (domainGraph? : Option String) (l : Link) (s t : RunState) (parts : List Part),
      engine.Enters seed document (.link scene place m node id domainGraph? l) s →
      l.target.isMerge = true → outcome (openLink scene place m id domainGraph? l) s = (.ok parts, t) →
      t.counters.rangesLinked = s.counters.rangesLinked ∧ t.graph = s.graph ∨
      t.counters.rangesLinked = s.counters.rangesLinked + 1 ∧ ∃ d r linkGraph?,
        (s.contexts.get id).resolved? = some d ∧ d.value.isUri ∧
        m.domain.target.entity.IsRealizedBy engine.namespaces d ∧ r.value = d.value ∧
        l.range.target.entity.IsRealizedBy engine.namespaces r ∧
        (engine.scene document).NamesGraph domainGraph? l.graph? linkGraph? ∧
        s.graph.Gains t.graph (r.States linkGraph?) := by
  constructor
  · intro l path ids node position s t hentered h
    obtain ⟨⟨d, hd, huri, hrealized⟩, hgraph, vs, hvs, htracks⟩ := tracks_of_enters_range hentered
    have hl := isOf_of_enters_range hentered
    have hscene : l.scene.namespaces = engine.namespaces := congrArg Scene.namespaces hl.scene_eq
    have hlength := relationships_length_of_validate valid hl
    rw [hvs.length_eq] at hlength
    rcases gains_of_linkRange hd htracks hlength h with
      hnone | ⟨hcount, r, properties, u, hr, hproperties, hgains⟩
    · exact .inl hnone
    · have hfresh := Context.isFresh_fresh .range node position (some path)
      have hrange := Resolution.isRealizedBy_of_run (x := .ofRange l path node position s)
        (Resolution.isNew_entering hfresh none _ _) hr
      refine .inr ⟨hcount, hgraph, d, vs, r, properties, u, ?_, hr, hgains⟩
      exact ⟨hd.resolved?_eq, huri, hrealized, htracks.imp fun _ _ hv => hv.resolved?_eq, hvs,
        hscene ▸ hrange, hscene ▸ hproperties, (mapM_eq_ok_iff.1 hproperties).length_eq ▸ hlength⟩
  · intro scene place m node id domainGraph? l s t parts hentered hmerge h
    obtain ⟨rfl, -⟩ := Part.occursIn_of_enters hentered
    obtain ⟨d, hd, huri, hrealized⟩ := written_of_enters_link hentered
    obtain ⟨linkGraph?, hgraph, ⟨-, -, hmerged⟩ | ⟨hmerge', -⟩⟩ := openLink_ok h
    · rcases gains_of_linkMerge (s := s.countLink)
        (l := ⟨engine.scene document, place, m, l, id, domainGraph?, linkGraph?⟩) hd.resolved?_eq hmerged
        with hnone | ⟨hcount, r, u, hr, hvalue, hgains⟩
      · exact .inl hnone
      · refine .inr ⟨hcount, d, r, linkGraph?, hd.resolved?_eq, huri, hrealized, hvalue, ?_, hgraph,
          hgains⟩
        exact Resolution.isRealizedBy_of_run (Resolution.isNew_entering (Context.isFresh_fresh ..) _ _ _) hr
    · cases hmerge.symm.trans hmerge'

/-- A mapping that leads a person through a contact to a phone, and describes the person by a merged
range as well. -/
def contactEngine : Engine :=
  let entity (type : String) (additionals : List (Attached Entity)) : Entity :=
    ⟨[type], some ⟨"UUID", []⟩, [], additionals, none, none⟩
  let phone : Link :=
    ⟨⟨["contact"], []⟩, ⟨none, ["<urn:by>", "<urn:at>"], [entity "<urn:Contact>" []]⟩,
      ⟨"contact/phone", ⟨entity "<urn:Phone>" [], none⟩⟩, none, false⟩
  let merged : Link :=
    ⟨⟨[""], []⟩, ⟨none, ["MERGE"], []⟩,
      ⟨"", ⟨entity "<urn:Agent>" [⟨"<urn:born>", entity "<urn:Birth>" []⟩], none⟩⟩, none, false⟩
  ⟨⟨.builtin, [⟨⟨"/person", ⟨entity "<urn:Person>" [], none⟩, none⟩, [phone, merged], none, false⟩]⟩,
    .empty, none, { Settings.default with uuidWidth? := some 2 }⟩

def personWithPhone : Xml.Document :=
  let element (name : String) (content : List Xml.Content) : Xml.Content :=
    .element ⟨none, name⟩ [] [] content
  ⟨[element "person" [element "contact" [element "phone" []]]]⟩

/-- Whether a step counts a linked range and adds so many statements. -/
def addsLinked {α : Type} (added : Nat) (m : Run α) (s : RunState) : Bool :=
  match outcome m s with
  | (.ok _, t) => t.counters.rangesLinked != s.counters.rangesLinked &&
    t.graph.size == s.graph.size + added
  | _ => false

theorem addsLinked_ok {α : Type} {added : Nat} {m : Run α} (h : addsLinked added m s = true) :
    ∃ a t, outcome m s = (.ok a, t) ∧ t.counters.rangesLinked ≠ s.counters.rangesLinked ∧
      t.graph.size = s.graph.size + added := by
  rw [addsLinked] at h
  split at h
  next a t ok =>
    rw [Bool.and_eq_true, bne_iff_ne, beq_iff_eq] at h
    exact ⟨a, t, ok, h⟩
  next => cases h

/-- Whether a part is a link that merges its range and adds so many statements. -/
def addsMerged (added : Nat) : Part × RunState → Bool
  | (.link scene place m _ id domainGraph? l, s) =>
    l.target.isMerge && addsLinked added (openLink scene place m id domainGraph? l) s
  | _ => false

/-- The phone adds its type, that of the contact and the two properties; the person was described
before, and is part of the branch all the same. The merged range adds its type, and what is attached to
it. -/
theorem gains_of_linked_phone :
    contactEngine.validate = .ok () ∧
    (∃ l path ids node position s t,
      contactEngine.Enters [] personWithPhone (.range l path ids node position) s ∧
      outcome (linkRange l path ids node position) s = (.ok (), t) ∧ ids.length = 1 ∧
      t.graph.size = s.graph.size + 4 ∧
      ∃ d vs r properties, contactEngine.Branch l ids s d vs r properties ∧
        s.graph.Gains t.graph fun st =>
          d.States l.domainGraph? st ∨ (∃ v ∈ vs, v.States l.linkGraph? st) ∨ r.States l.linkGraph? st ∨
            Chained l.linkGraph? (d.value :: vs.map (·.value) ++ [r.value]) properties st) ∧
    ∃ scene place m node id domainGraph? l s t parts,
      contactEngine.Enters [] personWithPhone (.link scene place m node id domainGraph? l) s ∧
      l.target.isMerge = true ∧ outcome (openLink scene place m id domainGraph? l) s = (.ok parts, t) ∧
      t.graph.size = s.graph.size + 3 ∧ ∃ (d r : Resolved) (linkGraph? : Option String),
        (s.contexts.get id).resolved? = some d ∧ r.value = d.value ∧
        s.graph.Gains t.graph (r.States linkGraph?) := by
  have valid : contactEngine.validate = .ok () := by decide +kernel
  obtain ⟨hranges, hmerges⟩ := @gains_of_linked contactEngine [] personWithPhone valid
  refine ⟨valid, ?_, ?_⟩
  · have hvisit : (visits 8 (contactEngine.parts personWithPhone) (contactEngine.start [])).any
        (isRange fun l path ids node position s =>
          ids.length == 1 && addsLinked 4 (linkRange l path ids node position) s) = true := by
      decide +kernel
    obtain ⟨l, path, ids, node, position, s, hentered, htest⟩ := exists_range_of_visits hvisit
    rw [Bool.and_eq_true, beq_iff_eq] at htest
    obtain ⟨hids, htest⟩ := htest
    obtain ⟨⟨⟩, t, ok, hcounted, hadded⟩ := addsLinked_ok htest
    rcases hranges _ _ _ _ _ _ _ hentered ok with
      ⟨hcount, -⟩ | ⟨-, -, d, vs, r, properties, -, hbranch, -, hgains⟩
    · exact absurd hcount hcounted
    · exact ⟨l, path, ids, node, position, s, t, hentered, ok, hids, hadded, d, vs, r, properties, hbranch,
        hgains⟩
  · have hvisit : (visits 8 (contactEngine.parts personWithPhone) (contactEngine.start [])).any
        (addsMerged 3) = true := by
      decide +kernel
    obtain ⟨⟨p, s⟩, hmem, htest⟩ := List.any_eq_true.1 hvisit
    cases p with
    | link scene place m node id domainGraph? l =>
      rw [addsMerged, Bool.and_eq_true] at htest
      obtain ⟨hmerge, htest⟩ := htest
      obtain ⟨parts, t, ok, hcounted, hadded⟩ := addsLinked_ok htest
      have hentered := entered_of_mem_visits hmem
      rcases hmerges _ _ _ _ _ _ _ _ _ _ hentered hmerge ok with
        ⟨hcount, -⟩ | ⟨-, d, r, linkGraph?, hd, -, -, hvalue, -, -, hgains⟩
      · exact absurd hcount hcounted
      · exact ⟨scene, place, m, node, id, domainGraph?, l, s, t, parts, hentered, hmerge, ok, hadded, d, r,
          linkGraph?, hd, hvalue, hgains⟩
    | _ => cases htest

end Engine

end Crosswalk
