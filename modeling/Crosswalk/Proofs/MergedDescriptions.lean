import Crosswalk.Proofs.CompleteRuns
import Crosswalk.Proofs.LinkedBranches
import Crosswalk.Proofs.Seats

/-!
# Merged descriptions

A link that merges its range adds the description of the range to the resource of the domain. That is as
if the entity of the domain had been described in this way itself: two runs, one for each way to write the
mapping, take the same domain nodes one after the other, and stay alike in what they draw and write. What can
come between is only the keys under which values are kept: they number the additional entities of the domain
and of the range each from zero.
-/

namespace Crosswalk

open Crosswalk.Rdf (Statement)
open Crosswalk.Xml (Location)

/-- The link merges its range whatever the node, and into the graph of the domain. -/
structure Link.MergesPlainly (l : Link) : Prop where
  skip_eq : l.skip = false
  isMerge_eq : l.target.isMerge = true
  condition?_eq : l.target.condition? = none
  rangeCondition?_eq : l.range.target.condition? = none
  graph?_eq : l.graph? = none

/-- The mapping without links, and with the description of another entity added to that of its domain. -/
def Mapping.describing (m : Mapping) (e : Entity) : Mapping :=
  { m with
    domain := { m.domain with
      target := { m.domain.target with entity := m.domain.target.entity.extendedBy e } }
    links := [] }

namespace Engine

open Crosswalk.Run

variable {engine : Engine} {seed : List UInt8} {document : Xml.Document} {s t : RunState}

/-! ## What a domain node adds -/

/-- Whether the condition of the domain leaves a node out. -/
def FilteredOut (engine : Engine) (document : Xml.Document) (m : Mapping) (node : Location)
    (filtered : Bool) : Prop :=
  Condition.guardFails (engine.scene document).conditionSetting node m.domain.target.condition? =
    .ok filtered

/-- What a domain node adds of its own: nothing if it is filtered out, else the description of its
entity. -/
theorem domain_adds (plain : engine.ResolvesPlain seed document)
    (agree : engine.KeysAgree seed document) {place : Place} {m : Mapping} {g? : Option String}
    {node : Location} {position : Nat} {parts : List Part}
    (h : engine.Enters seed document (.domain (engine.scene document) place m g? node position) s)
    (hopened : outcome (openDomain (engine.scene document) place m g? node position) s = (.ok parts, t)) :
    engine.FilteredOut document m node true ∧ parts = [] ∧ t.uuids = s.uuids ∧ t.graph = s.graph ∨
      engine.FilteredOut document m node false ∧ ∃ d u graph? v,
        m.domain.target.entity.evaluate engine.namespaces
          (makes (engine.scene document) node position) none = .ok d ∧
        d.value.isUri ∧ u.uuids = s.uuids ∧
        outcome (domainGraph (engine.scene document) m g? node position) u = (.ok graph?, v) ∧
        t.uuids = v.uuids ∧ s.graph.Gains t.graph (d.States graph?) ∧
        (t.contexts.get 0).resolved? = some d ∧ (t.contexts.get 0).node = node ∧
        (t.contexts.get 0).position = position ∧
        parts = Part.links (engine.scene document) place m node 0 graph? 1 m.links := by
  rcases openDomain_ok hopened with hfiltered | ⟨hguard, d, u, graph?, v, hd, huri, hgraph, hlink, rfl⟩
  · exact .inl hfiltered
  have hx : engine.Resolves seed document
      (.ofDomain (engine.scene document) place m node position s) :=
    ⟨_, s, _, h, .domain, .refl⟩
  obtain ⟨hevaluated, huuids⟩ := evaluate_of_run plain agree hx hd
  rw [Resolution.context_entering] at hevaluated
  obtain ⟨hreads, -⟩ := Resolution.reads_of_run hx.isNew hd
  have hgraphReads := (domainGraph_reads _ m g? node position).outcome hgraph
  obtain ⟨hgains, hwritten, -⟩ :=
    link_of_run hx.isNew (linked_entering (Context.isFresh_fresh ..)) hd hgraphReads hlink
  have hgrows : Grows v t := (link_moves respects_grows.toCarries _ _).outcome hlink
  obtain ⟨-, hnode, hposition⟩ :=
    ((hreads.extends.trans hgraphReads.extends).trans hgrows.contexts).of_push
  exact .inr ⟨hguard, d, u, graph?, v, hevaluated, huri, huuids, hgraph, after_eq hlink ▸ uuids_link _ _ _,
    hgains, hwritten.resolved?_eq, hnode, hposition, rfl⟩

/-- What a link that merges adds: the description of its range with the value of the domain. -/
theorem merge_adds (plain : engine.ResolvesPlain seed document)
    (agree : engine.KeysAgree seed document) {place : Place} {m : Mapping} {node : Location} {id : Nat}
    {graph? : Option String} {l : Link} (merges : l.MergesPlainly) {d : Resolved}
    (h : engine.Enters seed document (.link (engine.scene document) place m node id graph? l) s)
    (hd : (s.contexts.get id).resolved? = some d)
    (hrun : outcome (runLink (engine.scene document) place m id graph? l) s = (.ok (), t)) :
    ∃ r, l.range.target.entity.evaluate engine.namespaces
        (makes (engine.scene document) (s.contexts.get id).node (s.contexts.get id).position)
          (some d.value) = .ok r ∧
      t.uuids = s.uuids ∧ s.graph.Gains t.graph (r.States graph?) := by
  rw [runLink_eq] at hrun
  obtain ⟨parts, t', hopened, hrest⟩ := bind_ok.1 hrun
  obtain ⟨linkGraph?, hgraph, ⟨-, rfl, hmerged⟩ | ⟨hmerge, -⟩⟩ := openLink_ok hopened
  · cases hrest
    rw [merges.graph?_eq] at hgraph
    obtain rfl : linkGraph? = graph? := hgraph
    have hd' : (s.countLink.contexts.get id).resolved? = some d := hd
    rcases linkMerge_ok (l := ⟨engine.scene document, place, m, l, id, linkGraph?, linkGraph?⟩) hd' hmerged
      with ⟨hguard, -⟩ | ⟨r, u, v, hr, hlink, rfl⟩
    · rw [merges.condition?_eq, merges.rangeCondition?_eq] at hguard
      rcases hguard with ⟨⟨⟩⟩ | ⟨⟨⟩⟩
    have hx : engine.Resolves seed document (.merging (engine.scene document) place id
        l.range.target.entity d.value (s.contexts.get id).node (s.contexts.get id).position s.countLink) :=
      ⟨_, s, _, h, .merge merges.isMerge_eq hd, .refl⟩
    obtain ⟨hevaluated, huuids⟩ := evaluate_of_run plain agree hx hr
    rw [Resolution.merging, Resolution.context_entering] at hevaluated
    obtain ⟨hgains, -⟩ :=
      link_of_run hx.isNew (linked_entering (Context.isFresh_fresh ..)) hr .refl hlink
    have hlinkUuids : v.uuids = u.uuids := after_eq hlink ▸ uuids_link _ _ _
    exact ⟨r, hevaluated, hlinkUuids.trans huuids, hgains⟩
  · cases hmerge.symm.trans merges.isMerge_eq

/-- A domain node draws at most for its graph, and adds these statements to it. -/
def Adds (engine : Engine) (document : Xml.Document) (m : Mapping) (g? : Option String)
    (node : Location) (position : Nat) (states : Option String → Statement → Prop) (s t : RunState) :
    Prop :=
  ∃ graph? u v, u.uuids = s.uuids ∧
    outcome (domainGraph (engine.scene document) m g? node position) u = (.ok graph?, v) ∧
    t.uuids = v.uuids ∧ s.graph.Gains t.graph (states graph?)

theorem run_described (plain : engine.ResolvesPlain seed document)
    (agree : engine.KeysAgree seed document) {place : Place} {m : Mapping} (links : m.links = [])
    {g? : Option String} {node : Location} {position : Nat}
    (h : engine.Enters seed document (.domain (engine.scene document) place m g? node position) s)
    (hrun : outcome (Part.domain (engine.scene document) place m g? node position).run s = (.ok (), t)) :
    engine.FilteredOut document m node true ∧ t.uuids = s.uuids ∧ t.graph = s.graph ∨
      engine.FilteredOut document m node false ∧ ∃ d,
        m.domain.target.entity.evaluate engine.namespaces
          (makes (engine.scene document) node position) none = .ok d ∧
        engine.Adds document m g? node position d.States s t := by
  rw [Part.run_eq] at hrun
  obtain ⟨parts, t', hopened, hrest⟩ := bind_ok.1 hrun
  rcases domain_adds plain agree h hopened with ⟨hguard, rfl, huuids, hgraph⟩ |
    ⟨hguard, d, u, graph?, v, hd, huri, hu, hgraph, huuids, hgains, -, -, -, rfl⟩
  · cases hrest
    exact .inl ⟨hguard, huuids, hgraph⟩
  · rw [links] at hrest
    cases hrest
    exact .inr ⟨hguard, d, hd, graph?, u, v, hu, hgraph, huuids, hgains⟩

theorem run_merged (plain : engine.ResolvesPlain seed document)
    (agree : engine.KeysAgree seed document) (complete : (engine.final seed document).diagnostics = [])
    {place : Place} {m : Mapping} {l : Link} (merges : l.MergesPlainly) (links : m.links = [l])
    {g? : Option String} {node : Location} {position : Nat}
    (h : engine.Enters seed document (.domain (engine.scene document) place m g? node position) s)
    (hrun : outcome (Part.domain (engine.scene document) place m g? node position).run s = (.ok (), t)) :
    engine.FilteredOut document m node true ∧ t.uuids = s.uuids ∧ t.graph = s.graph ∨
      engine.FilteredOut document m node false ∧ ∃ d r,
        m.domain.target.entity.evaluate engine.namespaces
          (makes (engine.scene document) node position) none = .ok d ∧ d.value.isUri ∧
        l.range.target.entity.evaluate engine.namespaces
          (makes (engine.scene document) node position) (some d.value) = .ok r ∧
        engine.Adds document m g? node position (fun graph? st => d.States graph? st ∨ r.States graph? st)
          s t := by
  rw [Part.run_eq] at hrun
  obtain ⟨parts, t', hopened, hrest⟩ := bind_ok.1 hrun
  rcases domain_adds plain agree h hopened with ⟨hguard, rfl, huuids, hgraph⟩ |
    ⟨hguard, d, u, graph?, v, hd, huri, hu, hgraph, huuids, hgains, hresolved, hnode, hposition, rfl⟩
  · cases hrest
    exact .inl ⟨hguard, huuids, hgraph⟩
  · have hparts : Part.links (engine.scene document) place m node 0 graph? 1 m.links =
        [.link (engine.scene document) { place with link? := some 1 } m node 0 graph? l] := by
      simp [links, Part.links, Part.numbered, merges.skip_eq]
    rw [hparts] at hrest hopened
    obtain ⟨_, w, hguarded, hrest⟩ := bind_ok.1 hrest
    cases hrest
    have hentered : engine.Enters seed document
        (.link (engine.scene document) { place with link? := some 1 } m node 0 graph? l) t' :=
      Entered.within h hopened (.here ..)
    obtain ⟨r, hr, hruuids, hrgains⟩ := merge_adds plain agree merges hentered hresolved
      (run_ok_of_guarded complete hentered hguarded)
    rw [hnode, hposition] at hr
    exact .inr ⟨hguard, d, r, hd, huri, hr,
      graph?, u, v, hu, hgraph, hruuids.trans huuids, hgains.trans hrgains⟩

/-! ## Two runs beside one another -/

/-- The engine with one mapping only. -/
def withMapping (engine : Engine) (m : Mapping) : Engine :=
  { engine with mapping := ⟨engine.namespaces, [m]⟩ }

/-- The engine with a mapping whose only link merges its range. -/
abbrev merging (engine : Engine) (m : Mapping) (l : Link) : Engine :=
  engine.withMapping { m with links := [l] }

/-- The engine with a mapping that describes the range of a link with its domain. -/
abbrev describing (engine : Engine) (m : Mapping) (l : Link) : Engine :=
  engine.withMapping (m.describing l.range.target.entity)

/-- The same has been drawn and written. -/
structure Alike (s t : RunState) : Prop where
  uuids_eq : t.uuids = s.uuids
  mem_graph_iff : ∀ q, q ∈ s.graph.quads ↔ q ∈ t.graph.quads

/-- Two runs stay alike where a domain node adds the same statements to each. -/
theorem Alike.adds {m m' : Mapping} {g? : Option String} {node : Location} {position : Nat}
    {states states' : Option String → Statement → Prop} {s s' t t' : RunState} (alike : Alike s s')
    (hgraph : domainGraph ((engine.withMapping m').scene document) m' g? node position =
      domainGraph ((engine.withMapping m).scene document) m g? node position)
    (hstates : ∀ graph? st, states graph? st ↔ states' graph? st)
    (h : (engine.withMapping m).Adds document m g? node position states s t)
    (h' : (engine.withMapping m').Adds document m' g? node position states' s' t') : Alike t t' := by
  obtain ⟨graph?, u, v, hu, hmade, ht, hgains⟩ := h
  obtain ⟨graph?', u', v', hu', hmade', ht', hgains'⟩ := h'
  have hdrawn : u'.uuids = u.uuids := hu'.trans (alike.uuids_eq.trans hu.symm)
  rw [hgraph] at hmade'
  obtain ⟨hsame, huuids⟩ := domainGraph_congr (m := m) hdrawn
  rw [hmade, hmade'] at hsame
  rw [after_eq hmade, after_eq hmade'] at huuids
  obtain rfl : graph?' = graph? := Except.ok.inj hsame
  refine ⟨ht'.trans (huuids.trans ht.symm), fun q => ?_⟩
  rw [hgains.mem_iff, hgains'.mem_iff, alike.mem_graph_iff]
  simp only [hstates]

/-- Nothing is dropped in the run, all that it resolves is plain, and its keys agree. -/
structure Undisturbed (engine : Engine) (seed : List UInt8) (document : Xml.Document) : Prop where
  complete : (engine.final seed document).diagnostics = []
  plain : engine.ResolvesPlain seed document
  agree : engine.KeysAgree seed document

section

variable {m : Mapping} {l : Link} (merges : l.MergesPlainly)
  (h : (engine.merging m l).Undisturbed seed document)
  (h' : (engine.describing m l).Undisturbed seed document)
  {g? : Option String} {s s' t t' : RunState}

include merges h h'

/-- One domain node keeps the two runs alike. -/
theorem alike_of_run {place : Place} {node : Location} {position : Nat} (alike : Alike s s')
    (hp : (engine.merging m l).Enters seed document
      (.domain ((engine.merging m l).scene document) place { m with links := [l] } g? node position) s)
    (hp' : (engine.describing m l).Enters seed document
      (.domain ((engine.describing m l).scene document) place (m.describing l.range.target.entity) g? node
        position) s')
    (hrun : outcome (Part.domain ((engine.merging m l).scene document) place { m with links := [l] } g?
      node position).run s = (.ok (), t))
    (hrun' : outcome (Part.domain ((engine.describing m l).scene document) place
      (m.describing l.range.target.entity) g? node position).run s' = (.ok (), t')) : Alike t t' := by
  rcases run_merged h.plain h.agree h.complete merges rfl hp hrun with
    ⟨hguard, huuids, hgraph⟩ | ⟨hguard, d, r, hd, huri, hr, hadds⟩ <;>
  rcases run_described h'.plain h'.agree rfl hp' hrun' with
    ⟨hguard', huuids', hgraph'⟩ | ⟨hguard', d', hd', hadds'⟩
  · exact ⟨by rw [huuids, huuids', alike.uuids_eq], fun q => by rw [hgraph, hgraph', alike.mem_graph_iff]⟩
  · cases Except.ok.inj (Eq.trans (Eq.symm hguard) hguard')
  · cases Except.ok.inj (Eq.trans (Eq.symm hguard) hguard')
  · have hextended := evaluate_extendedBy hd huri hr
    obtain rfl : d.extendedBy r = d' := Except.ok.inj (Eq.trans (Eq.symm hextended) hd')
    have hvalue : r.value = d.value := (Except.ok.inj (Entity.evaluate_ok.1 hr).2.1).symm
    have hgraph : domainGraph ((engine.describing m l).scene document)
          (m.describing l.range.target.entity) g? node position =
        domainGraph ((engine.merging m l).scene document) { m with links := [l] } g? node position := rfl
    exact alike.adds hgraph (fun graph? st => (states_extendedBy hvalue).symm) hadds hadds'

/-- Some domain nodes, one after the other, keep the two runs alike. -/
theorem alike_of_runAll {place : Place} {nodes : List Location} {k : Nat} (alike : Alike s s')
    (hin : ∀ p u, Entered (Part.domains ((engine.merging m l).scene document) place
      { m with links := [l] } g? k nodes) s p u → (engine.merging m l).Enters seed document p u)
    (hin' : ∀ p u, Entered (Part.domains ((engine.describing m l).scene document) place
      (m.describing l.range.target.entity) g? k nodes) s' p u →
        (engine.describing m l).Enters seed document p u)
    (hrun : outcome (runAll (Part.domains ((engine.merging m l).scene document) place
      { m with links := [l] } g? k nodes)) s = (.ok (), t))
    (hrun' : outcome (runAll (Part.domains ((engine.describing m l).scene document) place
      (m.describing l.range.target.entity) g? k nodes)) s' = (.ok (), t')) : Alike t t' := by
  induction nodes generalizing k s s' with
  | nil =>
    cases hrun
    cases hrun'
    exact alike
  | cons node rest ih =>
    obtain ⟨_, u, hguarded, hrest⟩ := bind_ok.1 hrun
    obtain ⟨_, u', hguarded', hrest'⟩ := bind_ok.1 hrun'
    have hp := hin _ s (.here ..)
    have hp' := hin' _ s' (.here ..)
    have hnode := alike_of_run merges h h' alike hp hp' (run_ok_of_guarded h.complete hp hguarded)
      (run_ok_of_guarded h'.complete hp' hguarded')
    exact ih hnode (fun p v hpv => hin p v (.later hguarded hpv))
      (fun p v hpv => hin' p v (.later hguarded' hpv)) hrest hrest'

end

/-! ## Whole runs -/

/-- A run of one mapping finds its domain nodes and takes them one after the other, unless the mapping is
skipped. -/
theorem runAll_domains_of_execute {m : Mapping} {report : Report}
    (h : (engine.withMapping m).execute seed document = .ok report) :
    m.skip = true ∧ (engine.withMapping m).final seed document = (engine.withMapping m).start seed ∨
      m.skip = false ∧ ∃ g? nodes t,
        ((engine.withMapping m).scene document).NamesGraph none m.graph? g? ∧
        ((engine.withMapping m).source document).select .root m.domain.sourceNode = .ok nodes ∧
        t.uuids = ((engine.withMapping m).start seed).uuids ∧
        t.graph = ((engine.withMapping m).start seed).graph ∧
        outcome (runAll (Part.domains ((engine.withMapping m).scene document) ⟨1, none⟩ m g? 1 nodes)) t =
          (.ok (), (engine.withMapping m).final seed document) ∧
        ∀ p u, Entered (Part.domains ((engine.withMapping m).scene document) ⟨1, none⟩ m g? 1 nodes) t p u →
          (engine.withMapping m).Enters seed document p u := by
  have hrun := runAll_ok_of_execute h
  have hparts : (engine.withMapping m).parts document =
      if m.skip then [] else [.mapping ((engine.withMapping m).scene document) 1 m] := by
    rw [parts, withMapping, Part.mappings, Part.numbered]
    split <;> simp_all [Part.numbered]
  rcases hskip : m.skip with _ | _ <;> rw [hskip] at hparts
  · rw [if_neg Bool.false_ne_true] at hparts
    rw [hparts] at hrun
    obtain ⟨_, u, hguarded, hrest⟩ := bind_ok.1 hrun
    cases hrest
    rw [guarded_mapping, runMapping_eq] at hguarded
    obtain ⟨opened, t, hopened, hdomains⟩ := bind_ok.1 hguarded
    have hin (p : Part) (v : RunState) (hp : Entered opened t p v) :
        (engine.withMapping m).Enters seed document p v := by
      rw [Enters, hparts]
      exact .inside hopened hp
    obtain ⟨g?, nodes, hgraph, hnodes, huuids, hgraphs, rfl⟩ := openMapping_ok hopened
    exact .inr ⟨rfl, g?, nodes, t, hgraph, hnodes, huuids, hgraphs, hdomains, hin⟩
  · rw [if_pos rfl] at hparts
    rw [hparts] at hrun
    exact .inl ⟨rfl, (congrArg Prod.snd hrun).symm⟩

/-- A run of one mapping only resolves the entity of its domain, those that its links merge, and what hangs
off them, if all its links merge. -/
theorem mem_family_of_resolves {m : Mapping} (merges : ∀ l ∈ m.links, l.target.isMerge = true)
    {x : Resolution} (h : (engine.withMapping m).Resolves seed document x) :
    x.entity ∈ m.domain.target.entity.family ∨
      ∃ l ∈ m.links, x.entity ∈ l.range.target.entity.family := by
  obtain ⟨p, s, x₀, hp, hx, hreaches⟩ := h
  induction hreaches with
  | refl =>
    have hmapping (m' : Mapping) (hm : m' ∈ [m] ∧ m'.skip = false) : m' = m := List.mem_singleton.1 hm.1
    cases hx with
    | domain =>
      obtain ⟨-, hm, -⟩ := Part.occursIn_of_enters hp
      obtain rfl := hmapping _ hm
      exact .inl (Entity.mem_family_self _)
    | merge =>
      obtain ⟨-, hm, -, hl, -⟩ := Part.occursIn_of_enters hp
      obtain rfl := hmapping _ hm
      exact .inr ⟨_, hl, Entity.mem_family_self _⟩
    | intermediate =>
      have hl := isOf_of_enters_path hp
      obtain rfl := hmapping _ ⟨hl.mapping_mem, hl.mapping_kept⟩
      cases hl.isMerge_eq.symm.trans (merges _ hl.link_mem)
    | range =>
      have hl := isOf_of_enters_range hp
      obtain rfl := hmapping _ ⟨hl.mapping_mem, hl.mapping_kept⟩
      cases hl.isMerge_eq.symm.trans (merges _ hl.link_mem)
  | tail _ hy ih =>
    obtain ⟨a, ha, hentity⟩ := hy.mem_additionals
    rw [hentity]
    rcases ih with he | ⟨l, hl, he⟩
    · exact .inl (Entity.mem_family_of_attached he ha)
    · exact .inr ⟨l, hl, Entity.mem_family_of_attached he ha⟩

/-- The description of a resource by two entities is plain if both entities are. -/
theorem isPlain_of_mem_extendedBy {policy : GeneratorPolicy} {d r : Entity}
    (plain : ∀ e ∈ d.family ++ r.family, e.IsPlain policy) :
    ∀ e ∈ (d.extendedBy r).family, e.IsPlain policy := by
  intro e he
  have hd := plain d (List.mem_append_left _ d.mem_family_self)
  have hr := plain r (List.mem_append_right _ r.mem_family_self)
  rw [Entity.family_eq, List.mem_cons, mem_attachedFamilies] at he
  rcases he with rfl | ⟨a, ha, he⟩
  · refine ⟨hd.variableName?_eq, hd.globalName?_eq, hd.generator, fun call hcall => ?_⟩
    exact (List.mem_append.1 hcall).elim (hd.labels call) (hr.labels call)
  · refine plain e (List.mem_append.2 ?_)
    rw [d.family_eq, r.family_eq, List.mem_cons, List.mem_cons, mem_attachedFamilies, mem_attachedFamilies]
    exact (List.mem_append.1 ha).imp (fun ha => .inr ⟨a, ha, he⟩) fun ha => .inr ⟨a, ha, he⟩

section

variable {m : Mapping} {l : Link}

theorem merging_resolvesPlain (merges : l.MergesPlainly)
    (plain : ∀ e ∈ m.domain.target.entity.family ++ l.range.target.entity.family,
      e.IsPlain engine.policy) : (engine.merging m l).ResolvesPlain seed document := by
  intro x hx
  have hmerges : ∀ k ∈ [l], k.target.isMerge = true := by simp [merges.isMerge_eq]
  refine plain _ (List.mem_append.2 ((mem_family_of_resolves hmerges hx).imp id ?_))
  rintro ⟨k, hk, hfamily⟩
  rwa [List.mem_singleton.1 hk] at hfamily

theorem describing_resolvesPlain
    (plain : ∀ e ∈ m.domain.target.entity.family ++ l.range.target.entity.family,
      e.IsPlain engine.policy) : (engine.describing m l).ResolvesPlain seed document := by
  intro x hx
  rcases mem_family_of_resolves (by rintro k ⟨⟩) hx with hfamily | ⟨k, ⟨⟩, -⟩
  exact isPlain_of_mem_extendedBy plain _ hfamily

/-- Where seats agree in a run of one mapping, all of whose links merge, keys agree: a node has one
position. -/
theorem keysAgree_of_merges (merges : ∀ k ∈ m.links, k.target.isMerge = true)
    (plain : (engine.withMapping m).ResolvesPlain seed document) (valid : document.namesValid = true)
    (names : document.NamesApart) (seats : (engine.withMapping m).SeatsAgree) : (engine.withMapping m).KeysAgree seed document := by
  refine keysAgree_of_seatsAgree valid names seats plain fun x y hx hy hnode => ?_
  have hmerges : ∀ m' ∈ [m], ∀ k ∈ m'.links, k.target.isMerge = true := by simpa using merges
  obtain ⟨mx, hmx, hnumbers⟩ := numbers_of_resolves hmerges hx
  obtain ⟨my, hmy, hnumbers'⟩ := numbers_of_resolves hmerges hy
  obtain rfl : mx = m := List.mem_singleton.1 hmx
  obtain rfl : my = mx := List.mem_singleton.1 hmy
  rw [hnode] at hnumbers'
  exact hnumbers'.unique hnumbers

/-- Two undisturbed runs, of which the one merges what the other describes, write the same. -/
theorem mem_graph_iff_of_undisturbed (merges : l.MergesPlainly)
    (h : (engine.merging m l).Undisturbed seed document)
    (h' : (engine.describing m l).Undisturbed seed document) {report report' : Report}
    (hrun : (engine.merging m l).execute seed document = .ok report)
    (hrun' : (engine.describing m l).execute seed document = .ok report') (q : Rdf.Quad) :
    q ∈ report.graph.quads ↔ q ∈ report'.graph.quads := by
  rw [eq_ofState_of_execute hrun, eq_ofState_of_execute hrun']
  rcases runAll_domains_of_execute hrun with
    ⟨hskip, hfinal⟩ | ⟨hskip, g?, nodes, t, hgraph, hnodes, huuids, hgraphs, hdomains, hin⟩ <;>
  rcases runAll_domains_of_execute hrun' with
    ⟨hskip', hfinal'⟩ | ⟨hskip', g?', nodes', t', hgraph', hnodes', huuids', hgraphs', hdomains', hin'⟩
  · rw [hfinal, hfinal']
    exact Iff.rfl
  · cases Eq.trans (Eq.symm hskip) hskip'
  · cases Eq.trans (Eq.symm hskip) hskip'
  · have hsame : ((engine.merging m l).scene document).NamesGraph none m.graph? g?' := hgraph'
    obtain rfl := hgraph.unique hsame
    obtain rfl : nodes = nodes' := Except.ok.inj (Eq.trans (Eq.symm hnodes) hnodes')
    have alike : Alike t t' := by
      refine ⟨huuids'.trans (Eq.symm huuids), fun q => ?_⟩
      rw [hgraphs, hgraphs']
      exact Iff.rfl
    exact (alike_of_runAll merges h h' alike hin hin' hdomains hdomains').mem_graph_iff q

/-- If nothing is dropped and keys agree, a link that merges its range adds what the domain would add if
the range were described with it. Keys agree wherever the names of the document can be told apart, and the
seats of both mappings agree: the additional entities of one number and of the same types have one
call. -/
theorem mem_graph_merging_iff (merges : l.MergesPlainly)
    (plain : ∀ e ∈ m.domain.target.entity.family ++ l.range.target.entity.family,
      e.IsPlain engine.policy) {report report' : Report}
    (hrun : (engine.merging m l).execute seed document = .ok report)
    (hrun' : (engine.describing m l).execute seed document = .ok report')
    (complete : report.isComplete = true) (complete' : report'.isComplete = true) :
    ((engine.merging m l).KeysAgree seed document → (engine.describing m l).KeysAgree seed document →
        ∀ q, q ∈ report.graph.quads ↔ q ∈ report'.graph.quads) ∧
      (document.namesValid = true → document.NamesApart → (engine.merging m l).SeatsAgree →
        (engine.describing m l).SeatsAgree → ∀ q, q ∈ report.graph.quads ↔ q ∈ report'.graph.quads) := by
  have hplain : (engine.merging m l).ResolvesPlain seed document := merging_resolvesPlain merges plain
  have hplain' : (engine.describing m l).ResolvesPlain seed document := describing_resolvesPlain plain
  rw [Report.isComplete, List.isEmpty_iff, eq_ofState_of_execute hrun] at complete
  rw [Report.isComplete, List.isEmpty_iff, eq_ofState_of_execute hrun'] at complete'
  have hkeys (keys : (engine.merging m l).KeysAgree seed document)
      (keys' : (engine.describing m l).KeysAgree seed document) (q : Rdf.Quad) :
      q ∈ report.graph.quads ↔ q ∈ report'.graph.quads :=
    mem_graph_iff_of_undisturbed merges ⟨complete, hplain, keys⟩ ⟨complete', hplain', keys'⟩ hrun hrun' q
  refine ⟨hkeys, fun valid names seats seats' => hkeys ?_ ?_⟩
  · exact keysAgree_of_merges (by simp [merges.isMerge_eq]) hplain valid names seats
  · exact keysAgree_of_merges (by rintro k ⟨⟩) hplain' valid names seats'

end

/-! ## A town with two neighbours -/

/-- A mapping of a town with one neighbour. -/
def townMapping : Mapping :=
  let entity (type name : String) (additionals : List (Attached Entity)) : Entity :=
    ⟨[type], some ⟨"namedgraphURI", [⟨"text", .constant, name, none⟩]⟩, [], additionals, none, none⟩
  ⟨⟨"/town", ⟨entity "<urn:Town>" "urn:town" [⟨"<urn:near>", entity "<urn:Town>" "urn:other" []⟩],
    none⟩, none⟩, [], none, false⟩

/-- A link that merges another neighbour of the town into it. -/
def neighbourLink (type : String) : Link :=
  let neighbour : Entity :=
    ⟨[type], some ⟨"namedgraphURI", [⟨"text", .constant, "urn:neighbour", none⟩]⟩, [], [], none, none⟩
  ⟨⟨[""], []⟩, ⟨none, ["MERGE"], []⟩,
    ⟨"", ⟨⟨["<urn:Place>"], none, [], [⟨"<urn:near>", neighbour⟩], none, none⟩, none⟩⟩, none, false⟩

def townEngine : Engine :=
  ⟨⟨.builtin, []⟩, .empty, none, Settings.default⟩

def townDocument : Xml.Document :=
  ⟨[.element ⟨none, "town"⟩ [] [] []]⟩

theorem neighbourLink_mergesPlainly (type : String) : (neighbourLink type).MergesPlainly := by
  have hmerge : TargetRelation.isMerge ⟨none, ["MERGE"], []⟩ = true := by decide +kernel
  exact ⟨rfl, hmerge, rfl, rfl, rfl⟩

/-- A river beside the town is written with it. -/
theorem mem_graph_merging_iff_river :
    (neighbourLink "<urn:River>").MergesPlainly ∧
    (∀ e ∈ townMapping.domain.target.entity.family ++
      (neighbourLink "<urn:River>").range.target.entity.family, e.IsPlain townEngine.policy) ∧
    ∃ report report',
      (townEngine.merging townMapping (neighbourLink "<urn:River>")).execute [] townDocument = .ok report ∧
      (townEngine.describing townMapping (neighbourLink "<urn:River>")).execute [] townDocument =
        .ok report' ∧
      report.isComplete = true ∧ report'.isComplete = true ∧ report.graph.size = 6 ∧
      ∀ q, q ∈ report.graph.quads ↔ q ∈ report'.graph.quads := by
  have plain : ∀ e ∈ townMapping.domain.target.entity.family ++
      (neighbourLink "<urn:River>").range.target.entity.family, e.IsPlain townEngine.policy := by
    decide +kernel
  have valid : townDocument.namesValid = true := by decide +kernel
  have names : townDocument.NamesApart := Xml.Document.namesApart_of_plain (by decide +kernel)
  have seats : (townEngine.merging townMapping (neighbourLink "<urn:River>")).SeatsAgree := by
    decide +kernel
  have seats' : (townEngine.describing townMapping (neighbourLink "<urn:River>")).SeatsAgree := by
    decide +kernel
  have hmerging : ((townEngine.merging townMapping (neighbourLink "<urn:River>")).execute []
      townDocument).toOption.any (fun r => r.isComplete && r.graph.size == 6) = true := by
    decide +kernel
  have hdescribing : ((townEngine.describing townMapping (neighbourLink "<urn:River>")).execute []
      townDocument).toOption.any (fun r => r.isComplete) = true := by
    decide +kernel
  obtain ⟨report, hrun, htest⟩ := exists_report_of_any hmerging
  obtain ⟨report', hrun', complete'⟩ := exists_report_of_any hdescribing
  rw [Bool.and_eq_true, beq_iff_eq] at htest
  obtain ⟨complete, hsize⟩ := htest
  have merges := neighbourLink_mergesPlainly "<urn:River>"
  obtain ⟨-, hsame⟩ := mem_graph_merging_iff merges plain hrun hrun' complete complete'
  exact ⟨merges, plain, report, report', hrun, hrun', complete, complete', hsize,
    hsame valid names seats seats'⟩

/-- The statement that the neighbour is near the town. -/
def neighbourQuad : Rdf.Quad :=
  ⟨⟨"urn:town", by decide +kernel⟩, ⟨"urn:near", by decide +kernel⟩,
    .iri ⟨"urn:neighbour", by decide +kernel⟩, none⟩

/-- A second town beside the town is lost when it is merged: the first one is taken for it. -/
theorem lost_neighbour_of_merging :
    (neighbourLink "<urn:Town>").MergesPlainly ∧
    (∀ e ∈ townMapping.domain.target.entity.family ++
      (neighbourLink "<urn:Town>").range.target.entity.family, e.IsPlain townEngine.policy) ∧
    ∃ report report',
      (townEngine.merging townMapping (neighbourLink "<urn:Town>")).execute [] townDocument = .ok report ∧
      (townEngine.describing townMapping (neighbourLink "<urn:Town>")).execute [] townDocument =
        .ok report' ∧
      report.isComplete = true ∧ report'.isComplete = true ∧
      neighbourQuad ∈ report'.graph.quads ∧ neighbourQuad ∉ report.graph.quads := by
  have plain : ∀ e ∈ townMapping.domain.target.entity.family ++
      (neighbourLink "<urn:Town>").range.target.entity.family, e.IsPlain townEngine.policy := by
    decide +kernel
  have hmerging : ((townEngine.merging townMapping (neighbourLink "<urn:Town>")).execute []
      townDocument).toOption.any (fun r => r.isComplete && !decide (neighbourQuad ∈ r.graph.quads)) =
        true := by
    decide +kernel
  have hdescribing : ((townEngine.describing townMapping (neighbourLink "<urn:Town>")).execute []
      townDocument).toOption.any (fun r => r.isComplete && decide (neighbourQuad ∈ r.graph.quads)) =
        true := by
    decide +kernel
  obtain ⟨report, hrun, htest⟩ := exists_report_of_any hmerging
  obtain ⟨report', hrun', htest'⟩ := exists_report_of_any hdescribing
  rw [Bool.and_eq_true, Bool.not_eq_true', decide_eq_false_iff_not] at htest
  rw [Bool.and_eq_true, decide_eq_true_eq] at htest'
  exact ⟨neighbourLink_mergesPlainly _, plain, report, report', hrun, hrun', htest.1, htest'.1, htest'.2,
    htest.2⟩

end Engine

end Crosswalk
