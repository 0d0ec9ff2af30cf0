import Crosswalk.Proofs.CompleteRuns
import Crosswalk.Proofs.ComprisedValues
import Crosswalk.Proofs.LinkedBranches

/-!
# What associations lead to

Values are associated when entities are resolved, and written later, if at all. What the opening of a part
resolves it also writes, unless the part is dropped, so that a value that does not occur in the output
was got by a part that is reported. There is one exception: the intermediate entities of a path are written
with its ranges, and a path that leads to no range that is linked leaves their values associated with its
node and nothing else.
-/

namespace Crosswalk

open Crosswalk.Rdf (Statement)
open Crosswalk.Xml (Location)

namespace Run

variable {s t : RunState} {x : Resolution} {parts : List Part}

/-- The part follows a path, and so writes nothing itself. -/
def Part.IsPath (p : Part) : Prop :=
  ∃ l joined node position, p = .path l joined node position

/-- The opening of a part ends and has linked a range. -/
def Part.Links (p : Part) (s : RunState) : Prop :=
  ∃ parts t, outcome p.opening s = (.ok parts, t) ∧ t.counters.rangesLinked ≠ s.counters.rangesLinked

/-- An entity has been resolved, and all its values are in a graph, unless they are kept with other
texts. -/
def Resolution.Leaves (x : Resolution) (g : Rdf.Graph) : Prop :=
  ∃ r u, outcome x.run x.state = (.ok r, u) ∧ ∀ v, r.Comprises v → ¬v.IsRewritten → g.Mentions v.text

/-! ## Domain nodes and merged ranges -/

/-- What is resolved and then written on its own leaves its values. -/
theorem leaves_of_link {graph? : Option String} {r : Resolved} {u w : RunState} (hx : x.IsNew)
    (hlinked : (x.state.contexts.get x.id).linked = false) (hr : outcome x.run x.state = (.ok r, u))
    (huri : r.value.isUri) (hreads : Reads 0 u w) (hlink : outcome (Run.link x.id graph?) w = (.ok (), t)) :
    x.Leaves t.graph := by
  obtain ⟨-, hwritten, -⟩ := link_of_run hx hlinked hr hreads hlink
  exact ⟨r, u, hr, fun v hv =>
    hv.mentions hwritten.holds (Resolution.types_ne_nil_of_run hx hr) huri⟩

theorem leaves_of_openDomain {scene : Scene} {place : Place} {m : Mapping}
    {mappingGraph? : Option String} {node : Location} {position : Nat}
    (hpass : (Part.domain scene place m mappingGraph? node position).Passes s)
    (h : outcome (openDomain scene place m mappingGraph? node position) s = (.ok parts, t)) :
    (Resolution.ofDomain scene place m node position s).Leaves t.graph := by
  rcases openDomain_ok h with ⟨hguard, -⟩ | ⟨-, r, u, graph?, w, hr, huri, hgraph, hlink, -⟩
  · cases hguard.symm.trans hpass
  · have hfresh := Context.isFresh_fresh .domain node position none
    exact leaves_of_link (Resolution.isNew_entering hfresh none _ _)
      (linked_entering hfresh) hr huri
      ((domainGraph_reads scene m mappingGraph? node position).outcome hgraph) hlink

theorem leaves_of_linkMerge {l : LinkSetting} {node : Location} {position : Nat} {d : Resolved}
    (hpass : ∀ target ∈ [l.link.target.condition?, l.link.range.target.condition?],
      Condition.guardFails l.scene.conditionSetting node target = .ok false)
    (hd : (s.contexts.get l.domain).resolved? = some d) (huri : d.value.isUri)
    (h : outcome (linkMerge l node position) s = (.ok (), t)) :
    (Resolution.merging l.scene l.place l.domain l.link.range.target.entity d.value node position
      s).Leaves t.graph := by
  rcases linkMerge_ok hd h with ⟨hguard | hguard, -⟩ | ⟨r, u, w, hr, hlink, rfl⟩
  · cases hguard.symm.trans (hpass _ (by simp))
  · cases hguard.symm.trans (hpass _ (by simp))
  · have hfresh := Context.isFresh_fresh .range node position (some s.contexts.size)
    have hnew : (Resolution.merging l.scene l.place l.domain l.link.range.target.entity d.value node
        position s).IsNew :=
      Resolution.isNew_entering hfresh (some d.value) l.link.range.target.entity _
    have hvalue : r.value.isUri := Resolution.value_of_identity hnew rfl hr ▸ huri
    have hleaves := leaves_of_link hnew (linked_entering hfresh) hr hvalue .refl hlink
    exact hleaves

/-! ## Ranges -/

/-- A range for which the condition holds is linked, if its step ends. -/
theorem links_of_passes {l : LinkSetting} {path position : Nat} {ids : List Nat} {node : Location}
    {d : Resolved} (hpass : (Part.range l path ids node position).Passes s)
    (hd : (s.contexts.get l.domain).resolved? = some d)
    (h : outcome (linkRange l path ids node position) s = (.ok (), t)) :
    t.counters.rangesLinked ≠ s.counters.rangesLinked := by
  rw [linkRange_eq] at h
  obtain ⟨batch?, u, hgather, hwrite⟩ := bind_ok.1 h
  have hreads := after_eq hgather ▸ gatherRange_reads l path ids node position s
  rcases gatherRange_ok hgather with ⟨-, hguard | hnone⟩ | ⟨_, _, _, -, -, -, rfl⟩
  · cases hguard.symm.trans hpass
  · cases hnone.symm.trans (hreads.grows.contexts.resolved _ _ hd)
  · obtain ⟨⟨⟩, v, hcommit, hcount⟩ := bind_ok.1 hwrite
    rw [outcome_commit] at hcommit
    split at hcommit <;> cases hcommit
    cases hcount
    dsimp only
    rw [hreads.counters_eq]
    exact Nat.succ_ne_self _

/-- The last statement of a chain leads to the range. -/
theorem exists_chained_last (graph? : Option String) {values : List Value} (range : Value)
    {properties : List String} (h : properties.length = values.length) (hne : values ≠ []) :
    ∃ st, Chained graph? (values ++ [range]) properties st ∧ st.object = range := by
  have hlt : values.length - 1 < values.length := Nat.sub_one_lt (by simpa using hne)
  have hsucc : values.length - 1 + 1 = values.length := by omega
  refine ⟨⟨values[values.length - 1].text, properties[values.length - 1], range, graph?⟩,
    ⟨values.length - 1, _, _, range, ?_, List.getElem?_eq_getElem (h ▸ hlt), ?_, rfl⟩, rfl⟩
  · rw [List.getElem?_append_left hlt]
    exact List.getElem?_eq_getElem hlt
  · rw [hsucc, List.getElem?_append_right (Nat.le_refl _), Nat.sub_self]
    rfl

/-- An intermediate entity that was taken up is one of those that a path leaves to its ranges. -/
theorem mem_ids_of_intermediates {l : LinkSetting} {path position : Nat} {node : Location}
    {before rest : List Entity} {entity : Entity} {earlier ids : List Nat} {u : RunState}
    (divided : l.link.target.entities = before ++ entity :: rest)
    (hearlier : outcome (intermediates l path node position 0 before) s = (.ok earlier, t))
    (h : outcome (intermediates l path node position 0 l.link.target.entities) s = (.ok ids, u)) :
    let x := Resolution.entering l.scene l.place (.fresh (.intermediate before.length) node position
      (some path)) none entity t
    ∃ r v, outcome x.run x.state = (.ok r, v) ∧ x.id ∈ ids ∧ (u.contexts.get x.id).resolved? = some r := by
  rw [divided, intermediates_append, Nat.zero_add] at h
  obtain ⟨ids₀, t₀, h₀, h⟩ := bind_ok.1 h
  cases hearlier.symm.trans h₀
  obtain ⟨others, t₁, h₁, h⟩ := bind_ok.1 h
  cases h
  rw [intermediates_cons] at h₁
  obtain ⟨id, t₂, h₂, h₁⟩ := bind_ok.1 h₁
  rw [outcome_enter] at h₂
  cases h₂
  obtain ⟨r, v, hr, h₁⟩ := bind_ok.1 h₁
  rw [resolveIntermediate_ok] at hr
  split at h₁
  next =>
    obtain ⟨others, w, hothers, h₁⟩ := bind_ok.1 h₁
    cases h₁
    have hfresh := Context.isFresh_fresh (.intermediate before.length) node position (some path)
    obtain ⟨-, hnoted⟩ := Resolution.reads_of_run (Resolution.isNew_entering hfresh none entity t) hr
    have hreads := after_eq hothers ▸
      (intermediates_meets l path node position (before.length + 1) rest v).1
    exact ⟨r, v, hr, List.mem_append_right _ List.mem_cons_self, hreads.extends.resolved _ r hnoted⟩
  next => cases h₁

end Run

namespace Engine

open Crosswalk.Run

variable {engine : Engine} {seed : List UInt8} {document : Xml.Document} {s t : RunState}
  {l : LinkSetting} {node : Location} {position : Nat} {x : Resolution} {parts : List Part}

/-! ## Ranges and paths in a run -/

/-- A range that is linked leaves the values of all the entities of its branch. -/
theorem branch_of_links (valid : engine.validate = .ok ()) {path : Nat} {ids : List Nat}
    (hentered : engine.Enters seed document (.range l path ids node position) s)
    (h : outcome (linkRange l path ids node position) s = (.ok (), t))
    (hlinked : t.counters.rangesLinked ≠ s.counters.rangesLinked) :
    ∃ d vs r properties u, List.Forall₂ (fun id v => (s.contexts.get id).resolved? = some v) ids vs ∧
      (∀ v ∈ vs, v.value.isUri) ∧ properties.length = vs.length + 1 ∧
      outcome (Resolution.ofRange l path node position s).run
        (Resolution.ofRange l path node position s).state = (.ok r, u) ∧
      t.graph.Holds (BranchStates l d vs r properties) := by
  obtain ⟨⟨d, hd, -⟩, -, vs, hvs, htracks⟩ := tracks_of_enters_range hentered
  have hlength := relationships_length_of_validate valid (isOf_of_enters_range hentered)
  rw [hvs.length_eq] at hlength
  rcases gains_of_linkRange hd htracks hlength h with
    ⟨hnone, -⟩ | ⟨-, r, properties, u, hr, hproperties, hgains⟩
  · exact absurd hnone hlinked
  · refine ⟨d, vs, r, properties, u, htracks.imp fun _ _ hv => hv.resolved?_eq, fun v hv => ?_,
      (mapM_eq_ok_iff.1 hproperties).length_eq ▸ hlength, hr, hgains.holds⟩
    obtain ⟨_, -, huri, -⟩ := exists_mem_left_of_forall₂ hvs hv
    exact huri

theorem leaves_of_range (valid : engine.validate = .ok ()) {path : Nat} {ids : List Nat}
    (hentered : engine.Enters seed document (.range l path ids node position) s)
    (hpass : (Part.range l path ids node position).Passes s)
    (h : outcome (linkRange l path ids node position) s = (.ok (), t)) :
    (Resolution.ofRange l path node position s).Leaves t.graph := by
  obtain ⟨⟨d, hd, -⟩, -⟩ := tracks_of_enters_range hentered
  obtain ⟨d, vs, r, properties, u, -, -, hlength, hr, hbranch⟩ :=
    branch_of_links valid hentered h (links_of_passes hpass hd.resolved?_eq h)
  refine ⟨r, u, hr, fun v hv kept => ?_⟩
  rcases hv.eq_or_mentions (fun st hst => hbranch st (.inr (.inr (.inl hst)))) kept with rfl | hmentions
  · -- The range is the object at the end of the chain, also if it is a literal and has no statements.
    have hvalues : properties.length = (d.value :: vs.map (·.value)).length := by simpa using hlength
    obtain ⟨st, hst, hobject⟩ := exists_chained_last l.linkGraph? r.value hvalues (List.cons_ne_nil _ _)
    rw [← hobject] at kept ⊢
    exact hbranch.mentions_object (.inr (.inr (.inr hst))) kept
  · exact hmentions

/-- A path leaves the values of an intermediate entity as soon as one of its ranges is linked. -/
theorem leaves_of_path (valid : engine.validate = .ok ()) {joined : Bool} {q : Part} {u : RunState}
    (hentered : engine.Enters seed document (.path l joined node position) s)
    (hx : (Part.path l joined node position).Resolves s x)
    (hinside : (Part.path l joined node position).Inside s q u) (hlinks : q.Links u) :
    x.Leaves (after q.opening u).graph := by
  obtain ⟨parts, t, hopened, hq⟩ := hinside
  obtain ⟨q', v, hleads, hsame⟩ := Entered.outermost hq
  have hdepth := (Part.opens_of_opening hopened hleads.mem).depth_eq
  obtain ⟨rfl, rfl⟩ : q = q' ∧ u = v := by
    refine hsame.resolve_right ?_
    rintro ⟨opened, w, hopened', hq'⟩
    rw [Part.opening_eq_nil (by simpa [Part.depth] using hdepth) hopened'] at hq'
    cases hq'
  have hentered' := Entered.within hentered hopened hq
  have hgrows := grows_of_leads (by simp [Part.depth]) hopened hleads
  rcases openPath_ok hopened with rfl | ⟨ids, k, nodes, hids, rfl, -⟩
  · cases hleads.mem
  obtain ⟨_, range, _, ⟨⟩⟩ := Part.mem_ranges hleads.mem
  obtain ⟨opened, w, hopened', hlinked⟩ := hlinks
  obtain ⟨⟨⟩, w', hlink, hrest⟩ := bind_ok.1 hopened'
  cases hrest
  obtain ⟨d, vs, r, properties, w', hvs, huris, -, -, hbranch⟩ :=
    branch_of_links valid hentered' hlink hlinked
  have hnew := hx.isNew
  cases hx with
  | intermediate divided earlier =>
    obtain ⟨r, v, hr, hmem, hnoted⟩ := mem_ids_of_intermediates divided earlier hids
    obtain ⟨r', hr', hnoted'⟩ := exists_mem_right_of_forall₂ hvs hmem
    cases (hgrows.contexts.resolved _ _ hnoted).symm.trans hnoted'
    refine ⟨r, v, hr, fun value hvalue kept => ?_⟩
    rw [after_eq hopened']
    exact hvalue.mentions (fun st hst => hbranch st (.inr (.inl ⟨r, hr', hst⟩)))
      (Resolution.types_ne_nil_of_run hnew hr) (huris r hr') kept

/-! ## Whole runs -/

/-- What an opening has taken up it leaves in the graph, unless it is the opening of a path, which leaves
it to its ranges. -/
theorem leaves_of_opening (valid : engine.validate = .ok ()) {p : Part}
    (hentered : engine.Enters seed document p s) (hx : p.Takes s x)
    (hopened : outcome p.opening s = (.ok parts, t)) : p.IsPath ∨ x.Leaves t.graph := by
  obtain ⟨hresolves, hpass⟩ := hx
  cases hresolves with
  | domain => exact .inr (leaves_of_openDomain hpass hopened)
  | @merge scene place m node id domainGraph? l s r isMerge identity =>
    obtain ⟨d, hd, huri, -⟩ := written_of_enters_link hentered
    obtain rfl := Option.some.inj (identity.symm.trans hd.resolved?_eq)
    obtain ⟨linkGraph?, -, ⟨-, -, hmerged⟩ | ⟨hmerge, -⟩⟩ := openLink_ok hopened
    · exact .inr (leaves_of_linkMerge (l := ⟨scene, place, m, l, id, domainGraph?, linkGraph?⟩) hpass.2
        identity huri hmerged)
    · cases isMerge.symm.trans hmerge
  | intermediate => exact .inl ⟨_, _, _, _, rfl⟩
  | range =>
    obtain ⟨⟨⟩, _, hlink, hrest⟩ := bind_ok.1 hopened
    cases hrest
    exact .inr (leaves_of_range valid hentered hpass hlink)

/-- What a run associates with a node some entity was resolved to there, and if the run gives a report, its
text occurs in the output. There are two exceptions: the part that took the entity up was dropped, which is
reported, or it is a path of which no range has been linked. Typed literals that are kept with another text
are left aside. -/
theorem associated_where_resolved {report : Report} (h : engine.execute seed document = .ok report)
    {a : Association} (ha : a ∈ report.associations.pairs) :
    ∃ p s y value, engine.Enters seed document p s ∧ p.TakesUp s y ∧ y.Gets value ∧
      document.HasNode y.context.node ∧
      a = ⟨document.structuralPath y.context.node, value.text⟩ ∧
      (report.graph.Mentions a.value ∨ value.IsRewritten ∨
        (∃ cause t, engine.Drops seed document p cause s t ∧
          p.diagnostic cause ∈ report.diagnostics) ∨
        p.IsPath ∧ ∀ q u, p.Inside s q u → ¬q.Links u) := by
  have valid := validate_of_execute h
  obtain rfl := eq_ofState_of_execute h
  obtain ⟨p, s, y, value, hentered, hy, hgets, rfl⟩ := exists_gets_of_mem_associations ha
  obtain ⟨x, hx, hreaches⟩ := hy.exists_takes
  have hdescribes := describes_of_resolves ⟨p, s, x, hentered, hx.resolves, hreaches⟩
  refine ⟨p, s, y, value, hentered, hy, hgets, hdescribes.hasNode, ?_, ?_⟩
  · rw [Resolution.association, hdescribes.scene_eq]
    rfl
  by_cases kept : value.IsRewritten
  · exact .inr (.inl kept)
  -- What the entity leaves in the graph at some point of the run is still there in the end.
  have mentions {q : Part} {u : RunState} (hq : engine.Enters seed document q u)
      (hleaves : x.Leaves (after q.opening u).graph) :
      (engine.final seed document).graph.Mentions value.text := by
    obtain ⟨r, v, hr, hvalues⟩ := hleaves
    have hcomprises := Resolution.comprises_of_gets hx.resolves.isNew hr hreaches hgets
    exact (hvalues value hcomprises kept).mono (accumulates_opening hq).graph
  rcases opens_or_drops h hentered with ⟨opened, t, hopened⟩ | ⟨cause, t, hdrops⟩
  · rcases leaves_of_opening valid hentered hx hopened with hpath | hleaves
    · by_cases hlinks : ∃ q u, p.Inside s q u ∧ q.Links u
      · obtain ⟨q, u, hinside, hlinks⟩ := hlinks
        obtain ⟨l, joined, node, position, rfl⟩ := hpath
        obtain ⟨parts, w, hopened', hq⟩ := hinside
        have hleaves := leaves_of_path valid hentered hx.resolves ⟨parts, w, hopened', hq⟩ hlinks
        exact .inl (mentions (Entered.within hentered hopened' hq) hleaves)
      · exact .inr (.inr (.inr ⟨hpath, fun q u hinside hlinks' => hlinks ⟨q, u, hinside, hlinks'⟩⟩))
    · exact .inl (mentions hentered (after_eq hopened ▸ hleaves))
  · exact .inr (.inr (.inl ⟨cause, t, hdrops, mem_diagnostics_of_drops hdrops⟩))

/-- The phone is listed with its node, and occurs in the output. -/
theorem associated_where_phone_resolved :
    ∃ report a, contactEngine.execute [] personWithPhone = .ok report ∧
      a ∈ report.associations.pairs ∧ a.path = "/person[1]/contact[1]/phone[1]" ∧
      report.diagnostics = [] ∧ report.graph.Mentions a.value ∧
      ∃ p s y value, contactEngine.Enters [] personWithPhone p s ∧ p.TakesUp s y ∧ y.Gets value ∧
        a = ⟨personWithPhone.structuralPath y.context.node, value.text⟩ := by
  have hrun : (contactEngine.execute [] personWithPhone).toOption.any (fun report =>
      report.diagnostics.isEmpty && report.associations.pairs.any fun a =>
        a.path == "/person[1]/contact[1]/phone[1]" && decide (report.graph.Mentions a.value)) = true := by
    decide +kernel
  obtain ⟨report, hreport, htest⟩ := (Option.any_eq_true _ _).1 hrun
  rw [Bool.and_eq_true, List.isEmpty_iff, List.any_eq_true] at htest
  obtain ⟨complete, a, ha, htest⟩ := htest
  rw [Bool.and_eq_true, beq_iff_eq, decide_eq_true_eq] at htest
  have hexecute := eq_ok_of_toOption hreport
  obtain ⟨p, s, y, value, hentered, hy, hgets, -, heq, -⟩ := associated_where_resolved hexecute ha
  exact ⟨report, a, hexecute, ha, htest.1, complete, htest.2, p, s, y, value, hentered, hy, hgets, heq⟩

/-- A person with a contact that leads to no phone. -/
def personWithContact : Xml.Document :=
  let element (name : String) (content : List Xml.Content) : Xml.Content :=
    .element ⟨none, name⟩ [] [] content
  ⟨[element "person" [element "contact" []]]⟩

/-- A contact without a phone is resolved, and listed with its node, but nothing is written of it. Nothing
is reported either. -/
theorem contact_without_phone_not_mentioned :
    ∃ report a, contactEngine.execute [] personWithContact = .ok report ∧ report.isComplete = true ∧
      a ∈ report.associations.pairs ∧ a.path = "/person[1]/contact[1]" ∧
      ¬report.graph.Mentions a.value := by
  have hrun : (contactEngine.execute [] personWithContact).toOption.any (fun report =>
      report.isComplete && report.associations.pairs.any fun a =>
        a.path == "/person[1]/contact[1]" && !decide (report.graph.Mentions a.value)) = true := by
    decide +kernel
  obtain ⟨report, hreport, htest⟩ := (Option.any_eq_true _ _).1 hrun
  rw [Bool.and_eq_true, List.any_eq_true] at htest
  obtain ⟨complete, a, ha, htest⟩ := htest
  rw [Bool.and_eq_true, beq_iff_eq, Bool.not_eq_true', decide_eq_false_iff_not] at htest
  exact ⟨report, a, eq_ok_of_toOption hreport, complete, ha, htest.1, htest.2⟩

end Engine

end Crosswalk
