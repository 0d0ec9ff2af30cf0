import Crosswalk.Proofs.Batches
import Crosswalk.Proofs.OpenedResolutions

/-!
# What an opening has done

An opening that leaves parts to be run has resolved what these build on. The lemmas here take such an
opening apart once: which entities it has resolved and in which states, and which parts it
leaves. The step of a range is taken apart in the same way, as far as it links something.
-/

namespace Crosswalk

open Crosswalk.Xml (Location)

/-- The graph that a mapping or a link names, or another one if it names none. -/
def Scene.NamesGraph (scene : Scene) (other? : Option String) :
    Option String → Option String → Prop
  | some name, graph? => ∃ graph, scene.namespaces.expand name = .ok graph ∧ graph? = some graph
  | none, graph? => graph? = other?

theorem Scene.NamesGraph.unique {scene : Scene} {other? name? graph? graph?' : Option String}
    (h : scene.NamesGraph other? name? graph?) (h' : scene.NamesGraph other? name? graph?') :
    graph? = graph?' := by
  cases name? with
  | none => exact Eq.trans h (Eq.symm h')
  | some name =>
    obtain ⟨graph, hgraph, rfl⟩ := h
    obtain ⟨graph', hgraph', rfl⟩ := h'
    exact congrArg some (Except.ok.inj (hgraph.symm.trans hgraph'))

instance (scene : Scene) (other? name? : Option String) :
    Decidable (∃ graph?, scene.NamesGraph other? name? graph?) :=
  match name? with
  | none => isTrue ⟨other?, rfl⟩
  | some name =>
    match h : scene.namespaces.expand name with
    | .ok graph => isTrue ⟨some graph, graph, h, rfl⟩
    | .error _ => isFalse fun ⟨_, graph, hgraph, _⟩ => by cases h.symm.trans hgraph

namespace Run

variable {parts : List Part} {s t : RunState}

theorem namedGraph_ok {scene : Scene} {other? name? graph? : Option String}
    (h : outcome (namedGraph scene other? name?) s = (.ok graph?, t)) :
    t = s ∧ scene.NamesGraph other? name? graph? := by
  cases name? with
  | none =>
    cases h
    exact ⟨rfl, rfl⟩
  | some name =>
    obtain ⟨graph, u, hu, h⟩ := bind_ok.1 h
    obtain ⟨hgraph, rfl⟩ := ofSetup_ok.1 hu
    cases h
    exact ⟨rfl, graph, hgraph, rfl⟩

/-- The resolution of the entity of a domain node, in contexts of its own. -/
abbrev Resolution.ofDomain (scene : Scene) (place : Place) (m : Mapping) (node : Location)
    (position : Nat) (s : RunState) : Resolution :=
  .entering scene place (.fresh .domain node position none) none m.domain.target.entity
    { s with contexts := .empty }

/-- The resolution of the entity of a range. -/
abbrev Resolution.ofRange (l : LinkSetting) (path : Nat) (node : Location) (position : Nat)
    (s : RunState) : Resolution :=
  .entering l.scene l.place (.fresh .range node position (some path)) none l.link.range.target.entity s

/-- A mapping opens the domain nodes that it selects, and has a graph. -/
theorem openMapping_ok {scene : Scene} {number : Nat} {m : Mapping}
    (h : outcome (openMapping scene number m) s = (.ok parts, t)) :
    ∃ graph? nodes, scene.NamesGraph none m.graph? graph? ∧
      scene.source.select .root m.domain.sourceNode = .ok nodes ∧ t.uuids = s.uuids ∧ t.graph = s.graph ∧
      parts = Part.domains scene ⟨number, none⟩ m graph? 1 nodes := by
  obtain ⟨graph?, t₁, h₁, hrest⟩ := bind_ok.1 h
  obtain ⟨rfl, hgraph⟩ := namedGraph_ok h₁
  obtain ⟨nodes, t₂, h₂, hrest⟩ := bind_ok.1 hrest
  obtain ⟨hnodes, rfl⟩ := ofSetup_ok.1 h₂
  obtain ⟨_, t₃, h₃, hrest⟩ := bind_ok.1 hrest
  cases h₃
  cases hrest
  exact ⟨graph?, nodes, hgraph, hnodes, rfl, rfl, rfl⟩

/-- A domain node is filtered out, or it has an entity that is a resource and is to be described in its
graph before any link is followed. -/
theorem gatherDomain_ok {scene : Scene} {place : Place} {m : Mapping} {mappingGraph? : Option String}
    {node : Location} {position : Nat} {gathered : Gathered}
    (h : outcome (gatherDomain scene place m mappingGraph? node position) s = (.ok gathered, t)) :
    Condition.guardFails scene.conditionSetting node m.domain.target.condition? = .ok true ∧
        gathered = ⟨none, []⟩ ∧ t.uuids = s.uuids ∧ t.graph = s.graph ∨
      Condition.guardFails scene.conditionSetting node m.domain.target.condition? = .ok false ∧
      ∃ r u graph?,
        outcome (Resolution.ofDomain scene place m node position s).run
          (Resolution.ofDomain scene place m node position s).state = (.ok r, u) ∧
        r.value.isUri ∧ outcome (domainGraph scene m mappingGraph? node position) u = (.ok graph?, t) ∧
        gathered = ⟨some (Batch.empty.stage t.contexts graph? 0),
          Part.links scene place m node 0 graph? 1 m.links⟩ := by
  obtain ⟨_, t₁, h₁, h⟩ := bind_ok.1 h
  cases h₁
  obtain ⟨id, t₂, h₂, h⟩ := bind_ok.1 h
  rw [outcome_enter] at h₂
  cases h₂
  obtain ⟨b, t₃, h₃, h⟩ := bind_ok.1 h
  obtain ⟨hguard, rfl⟩ := discards_ok.1 h₃
  split at h
  next hb =>
    obtain ⟨_, _, hcounted, h⟩ := bind_ok.1 h
    cases hcounted
    cases h
    exact .inl ⟨hb ▸ hguard, rfl, rfl, rfl⟩
  next hb =>
    rw [Bool.not_eq_true] at hb
    obtain ⟨r, u, hr, h⟩ := bind_ok.1 h
    split at h
    next huri =>
      obtain ⟨graph?, v, hgraph, h⟩ := bind_ok.1 h
      obtain ⟨batch, w, hbatch, h⟩ := bind_ok.1 h
      rw [outcome_stage] at hbatch
      cases hbatch
      cases h
      exact .inr ⟨hb ▸ hguard, r, u, graph?, hr, huri, hgraph, rfl⟩
    next => cases h

/-- A domain node is filtered out, or it has an entity that is a resource and has been written before any
link is followed. -/
theorem openDomain_ok {scene : Scene} {place : Place} {m : Mapping} {mappingGraph? : Option String}
    {node : Location} {position : Nat}
    (h : outcome (openDomain scene place m mappingGraph? node position) s = (.ok parts, t)) :
    Condition.guardFails scene.conditionSetting node m.domain.target.condition? = .ok true ∧
        parts = [] ∧ t.uuids = s.uuids ∧ t.graph = s.graph ∨
      Condition.guardFails scene.conditionSetting node m.domain.target.condition? = .ok false ∧
      ∃ r u graph? v,
        outcome (Resolution.ofDomain scene place m node position s).run
          (Resolution.ofDomain scene place m node position s).state = (.ok r, u) ∧
        r.value.isUri ∧ outcome (domainGraph scene m mappingGraph? node position) u = (.ok graph?, v) ∧
        outcome (Run.link 0 graph?) v = (.ok (), t) ∧
        parts = Part.links scene place m node 0 graph? 1 m.links := by
  obtain ⟨gathered, v, hgathered, hwritten, rfl⟩ :=
    Part.opening_ok (p := .domain scene place m mappingGraph? node position) h
  rcases gatherDomain_ok hgathered with
    ⟨hguard, rfl, huuids, hgraph⟩ | ⟨hguard, r, u, graph?, hr, huri, hgraph, rfl⟩
  · cases hwritten
    exact .inl ⟨hguard, rfl, huuids, hgraph⟩
  · have hlink := (outcome_link 0 graph? v).trans hwritten
    exact .inr ⟨hguard, r, u, graph?, v, hr, huri, hgraph, hlink, rfl⟩

/-- A link that leaves paths to be followed does not merge, and has a graph. -/
theorem openLink_ok {scene : Scene} {place : Place} {m : Mapping} {id : Nat}
    {domainGraph? : Option String} {l : Link}
    (h : outcome (openLink scene place m id domainGraph? l) s = (.ok parts, t)) :
    ∃ linkGraph?, scene.NamesGraph domainGraph? l.graph? linkGraph? ∧
      let setting : LinkSetting := ⟨scene, place, m, l, id, domainGraph?, linkGraph?⟩
      (l.target.isMerge = true ∧ parts = [] ∧
        outcome (linkMerge setting (s.contexts.get id).node (s.contexts.get id).position) s.countLink =
          (.ok (), t)) ∨
      (l.target.isMerge = false ∧
        outcome (openFollowed setting (s.contexts.get id).node) s.countLink = (.ok parts, t)) := by
  obtain ⟨_, t₁, h₁, h⟩ := bind_ok.1 h
  cases h₁
  obtain ⟨linkGraph?, t₂, h₂, h⟩ := bind_ok.1 h
  obtain ⟨rfl, hgraph⟩ := namedGraph_ok h₂
  obtain ⟨c, t₃, h₃, h⟩ := bind_ok.1 h
  rw [outcome_context] at h₃
  cases h₃
  refine ⟨linkGraph?, hgraph, ?_⟩
  split at h
  next hmerge =>
    obtain ⟨_, t₄, h₄, h⟩ := bind_ok.1 h
    cases h
    exact .inl ⟨hmerge, rfl, h₄⟩
  next hmerge => exact .inr ⟨by simpa using hmerge, h⟩

/-- A link that merges is filtered out, or it has resolved its range with the value of the domain. -/
theorem gatherMerge_ok {l : LinkSetting} {node : Location} {position : Nat} {d : Resolved}
    {batch? : Option Batch} (hd : (s.contexts.get l.domain).resolved? = some d)
    (h : outcome (gatherMerge l node position) s = (.ok batch?, t)) :
    ((Condition.guardFails l.scene.conditionSetting node l.link.target.condition? = .ok true ∨
        Condition.guardFails l.scene.conditionSetting node l.link.range.target.condition? = .ok true) ∧
        batch? = none ∧ t.counters = s.counters ∧ t.graph = s.graph) ∨
      let x := Resolution.merging l.scene l.place l.domain l.link.range.target.entity d.value node position s
      ∃ r, outcome x.run x.state = (.ok r, t) ∧
        batch? = some (Batch.empty.stage t.contexts l.linkGraph? x.id) := by
  have hpath := Context.isFresh_fresh .path node position (some l.domain)
  have hrange := Context.isFresh_fresh .range node position (some s.contexts.size)
  obtain ⟨path, t₁, h₁, h⟩ := bind_ok.1 h
  rw [outcome_enter] at h₁
  cases h₁
  obtain ⟨b, t₂, h₂, h⟩ := bind_ok.1 h
  obtain ⟨hguard, rfl⟩ := discards_ok.1 h₂
  split at h
  next hb =>
    cases h
    exact .inl ⟨.inl (hb ▸ hguard), rfl, rfl, rfl⟩
  obtain ⟨range, t₃, h₃, h⟩ := bind_ok.1 h
  rw [outcome_enter] at h₃
  cases h₃
  obtain ⟨b, t₄, h₄, h⟩ := bind_ok.1 h
  obtain ⟨hguard, rfl⟩ := discards_ok.1 h₄
  split at h
  next hb =>
    cases h
    exact .inl ⟨.inr (hb ▸ hguard), rfl, rfl, rfl⟩
  obtain ⟨identity?, t₅, h₅, h⟩ := bind_ok.1 h
  have hdomain := (Contexts.resolved?_get_push hrange _ l.domain).trans
    ((Contexts.resolved?_get_push hpath s.contexts l.domain).trans hd)
  rw [outcome_resolvedValue?] at h₅
  simp only [RunState.enter, hdomain] at h₅
  cases h₅
  obtain ⟨r, u, hr, h⟩ := bind_ok.1 h
  obtain ⟨batch, v, hbatch, h⟩ := bind_ok.1 h
  rw [outcome_stage] at hbatch
  cases hbatch
  cases h
  exact .inr ⟨r, hr, rfl⟩

/-- A link that merges is filtered out, or it has resolved its range with the value of the domain and
written it. -/
theorem linkMerge_ok {l : LinkSetting} {node : Location} {position : Nat} {d : Resolved}
    (hd : (s.contexts.get l.domain).resolved? = some d)
    (h : outcome (linkMerge l node position) s = (.ok (), t)) :
    ((Condition.guardFails l.scene.conditionSetting node l.link.target.condition? = .ok true ∨
        Condition.guardFails l.scene.conditionSetting node l.link.range.target.condition? = .ok true) ∧
        t.counters = s.counters ∧ t.graph = s.graph) ∨
      let x := Resolution.merging l.scene l.place l.domain l.link.range.target.entity d.value node position s
      ∃ r u v, outcome x.run x.state = (.ok r, u) ∧ outcome (Run.link x.id l.linkGraph?) u = (.ok (), v) ∧
        t = { v with counters := { v.counters with rangesLinked := v.counters.rangesLinked + 1 } } := by
  rw [linkMerge_eq] at h
  obtain ⟨batch?, u, hgathered, h⟩ := bind_ok.1 h
  rcases gatherMerge_ok hd hgathered with ⟨hguard, rfl, hcounters, hgraph⟩ | ⟨r, hr, rfl⟩
  · cases h
    exact .inl ⟨hguard, hcounters, hgraph⟩
  · obtain ⟨_, v, hlink, h⟩ := bind_ok.1 h
    rw [← outcome_link] at hlink
    cases h
    exact .inr ⟨r, u, v, hr, hlink, rfl⟩

/-- A path leaves its ranges when its intermediate entities have been resolved. -/
theorem openPath_ok {l : LinkSetting} {joined : Bool} {node : Location} {position : Nat}
    (h : outcome (openPath l joined node position) s = (.ok parts, t)) :
    parts = [] ∨ ∃ ids k nodes,
      outcome (intermediates l s.contexts.size node position 0 l.link.target.entities)
        (s.enter (.fresh .path node position (some l.domain))) = (.ok ids, t) ∧
      parts = Part.ranges l s.contexts.size ids k nodes ∧
      (joined = true ∧ k = position ∧ nodes = [node] ∨
        joined = false ∧ k = 1 ∧ l.scene.source.select node
          (rangeRemainder l.link.range.sourceNode l.link.source.expression) = .ok nodes) := by
  obtain ⟨id, t₁, h₁, h⟩ := bind_ok.1 h
  rw [outcome_enter] at h₁
  cases h₁
  obtain ⟨b, t₂, h₂, h⟩ := bind_ok.1 h
  obtain ⟨-, rfl⟩ := discards_ok.1 h₂
  split at h
  · cases h
    exact .inl rfl
  obtain ⟨ids, t₃, hids, h⟩ := bind_ok.1 h
  split at h
  next hjoined =>
    cases h
    exact .inr ⟨ids, position, [node], hids, rfl, .inl ⟨hjoined, rfl, rfl⟩⟩
  next hjoined =>
    obtain ⟨nodes, t₄, h₄, h⟩ := bind_ok.1 h
    obtain ⟨hselect, rfl⟩ := ofSetup_ok.1 h₄
    cases h
    exact .inr ⟨ids, 1, nodes, hids, rfl, .inr ⟨by simpa using hjoined, rfl, hselect⟩⟩

end Run

end Crosswalk
