import Crosswalk.Proofs.AssociatedValues

/-!
# The output and the associations

Whatever stands in the output was a value of a resolved entity first, types and labels apart. So each
subject is associated with a node of the source, and so is each object, in the text that it had when the
entity was resolved. Only the literals that are kept in canonical form may have got another text since.
-/

namespace Crosswalk

open Crosswalk.Rdf (Statement Quad)
open Crosswalk.Xml (Location)

/-- A statement gives a resource one of its types or labels. -/
def Resolved.Tells (r : Resolved) (st : Statement) : Prop :=
  r.value = .uri st.subject ∧
    (st.predicate = Rdf.Graph.typeIri ∧ (∃ type ∈ r.types, st.object = .uri type) ∨
      (st.predicate, st.object) ∈ r.labels)

namespace Run

variable {s t u : RunState} {x : Resolution} {r : Resolved} {graph? : Option String} {st : Statement}
  {l : LinkSetting} {node : Location} {position : Nat} {parts : List Part}

/-- What describes an entity speaks of its values, and gives types and labels to what is taken up with
it. -/
theorem Stretch.TakesUp.comprises_of_states {S : Stretch} (hx : S.TakesUp x)
    (h : outcome x.run x.state = (.ok r, t)) (hst : r.States graph? st) :
    r.Comprises (.uri st.subject) ∧
      (r.Comprises st.object ∨
        ∃ y r' u, S.TakesUp y ∧ outcome y.run y.state = (.ok r', u) ∧ r'.Tells st) := by
  induction hst generalizing x t with
  | @type r subject type value mem =>
    exact ⟨value ▸ .own r, .inr ⟨x, r, t, hx, h, value, .inl ⟨rfl, type, mem, rfl⟩⟩⟩
  | @label r subject property label value mem =>
    exact ⟨value ▸ .own r, .inr ⟨x, r, t, hx, h, value, .inr mem⟩⟩
  | @leads r subject a value mem =>
    have isUri : r.value.isUri := by rw [value]; rfl
    exact ⟨value ▸ .own r, .inl (.attached isUri mem (.own _))⟩
  | @further r subject a st value mem _ ih =>
    have isUri : r.value.isUri := by rw [value]; rfl
    have typed := (Resolution.succeeds_of_run hx.isNew h).types_ne
    obtain ⟨k, hk⟩ := List.getElem?_of_mem mem
    obtain ⟨e, v, w, hattaches, hrun⟩ := Resolution.exists_attaches_of_run hx.isNew h hk
    obtain ⟨hsubject, hobject⟩ := ih (.attached hx typed hattaches) hrun
    exact ⟨.attached isUri mem hsubject, hobject.imp_left (.attached isUri mem)⟩

/-- A path that leaves ranges has come to its entities. -/
theorem passes_of_openPath {joined : Bool} {q : Part}
    (h : outcome (openPath l joined node position) s = (.ok parts, t)) (hq : q ∈ parts) :
    (Part.path l joined node position).Passes s := by
  obtain ⟨path, t₁, h₁, h⟩ := bind_ok.1 h
  obtain ⟨b, t₂, h₂, h⟩ := bind_ok.1 h
  obtain ⟨hguard, -⟩ := discards_ok.1 h₂
  cases b with
  | true =>
    cases h
    cases hq
  | false => exact hguard

/-- Each intermediate entity of a path was resolved after those before it. -/
theorem exists_earlier_of_intermediates {path : Nat} {entities : List Entity} {ids : List Nat} {id : Nat}
    (h : outcome (intermediates l path node position 0 entities) s = (.ok ids, t)) (hid : id ∈ ids) :
    ∃ before entity rest earlier u, entities = before ++ entity :: rest ∧
      outcome (intermediates l path node position 0 before) s = (.ok earlier, u) ∧
      id = u.contexts.size := by
  induction entities using List.reverseRecOn generalizing ids t with
  | nil =>
    cases h
    cases hid
  | append_singleton before entity ih =>
    rw [intermediates_append, Nat.zero_add] at h
    obtain ⟨earlier, u, hearlier, h⟩ := bind_ok.1 h
    obtain ⟨others, w, hothers, h⟩ := bind_ok.1 h
    cases h
    rcases List.mem_append.1 hid with hid | hid
    · obtain ⟨before', entity', rest, earlier', u', rfl, hearlier', rfl⟩ := ih hearlier hid
      exact ⟨before', entity', rest ++ [entity], earlier', u', by simp, hearlier', rfl⟩
    · refine ⟨before, entity, [], earlier, u, rfl, hearlier, ?_⟩
      rw [intermediates_cons] at hothers
      obtain ⟨id', t₁, h₁, hothers⟩ := bind_ok.1 hothers
      rw [outcome_enter] at h₁
      cases h₁
      obtain ⟨r, t₂, -, hothers⟩ := bind_ok.1 hothers
      split at hothers
      · cases hothers
        exact List.mem_singleton.1 hid
      · cases hothers

end Run

namespace Engine

open Crosswalk.Run

variable {engine : Engine} {seed : List UInt8} {document : Xml.Document} {s t : RunState} {p : Part}
  {l : LinkSetting} {node : Location} {position : Nat} {x y : Resolution} {parts : List Part} {r : Resolved}
  {value : Value} {st : Statement} {q : Quad}

/-! ## Entities that have been resolved -/

/-- An entity has been taken up and resolved by a part of a run. -/
def Obtains (engine : Engine) (seed : List UInt8) (document : Xml.Document) (r : Resolved) : Prop :=
  ∃ p s x t, engine.Enters seed document p s ∧ p.Takes s x ∧ outcome x.run x.state = (.ok r, t)

/-- A value is associated with a node of the source. -/
def Lists (engine : Engine) (seed : List UInt8) (document : Xml.Document) (value : String) : Prop :=
  ∃ n, document.HasNode n ∧
    ⟨document.structuralPath n, value⟩ ∈ (engine.final seed document).associations.pairs

/-- All values of what has been resolved are associated with nodes. -/
theorem lists_of_comprises (h : engine.Obtains seed document r) (hvalue : r.Comprises value) :
    engine.Lists seed document value.text := by
  obtain ⟨p, s, x, t, hentered, hx, hr⟩ := h
  obtain ⟨a, ha, htext⟩ := Resolution.exists_association_of_comprises hx.resolves.isNew hr hvalue
  have hlater : Accumulates (after x.run x.state) (engine.final seed document) :=
    (later_final_of_takesUp (.own hentered hx)).rel (allows_accumulates _)
  rw [after_eq hr] at hlater
  have hfinal := hlater.associations ha
  obtain ⟨p', s', y, v, hentered', hy, -, rfl⟩ := exists_gets_of_mem_associations hfinal
  obtain ⟨x', hx', hreaches⟩ := hy.exists_takes
  have hdescribes := describes_of_resolves ⟨p', s', x', hentered', hx'.resolves, hreaches⟩
  refine ⟨y.context.node, hdescribes.hasNode, ?_⟩
  rw [Resolution.association, hdescribes.scene_eq] at hfinal
  rw [← htext]
  exact hfinal

/-- The domain entity of a link. -/
theorem obtains_of_enters_link {scene : Scene} {place : Place} {m : Mapping} {id : Nat}
    {domainGraph? : Option String} {link : Link} {d : Resolved}
    (h : engine.Enters seed document (.link scene place m node id domainGraph? link) s)
    (hd : (s.contexts.get id).resolved? = some d) : engine.Obtains seed document d := by
  rcases opener_of_enters h with h | ⟨q, v, parts, t, hq, hopens, hopened, hleads⟩
  · cases h
  cases hopens with
  | link scene place m mappingGraph? node position k id domainGraph? l =>
    rcases openDomain_ok hopened with ⟨-, rfl, -⟩ | ⟨hpass, d', u, graph?, w, hr, -, hgraph, hlink, rfl⟩
    · cases hleads.mem
    obtain ⟨_, _, _, -, ⟨⟩⟩ := Part.mem_links hleads.mem
    have hfresh := Context.isFresh_fresh .domain node position none
    obtain ⟨-, hnoted⟩ := Resolution.reads_of_run (Resolution.isNew_entering hfresh none _ _) hr
    have huw : Grows u w := ((domainGraph_reads _ m _ node position).outcome hgraph).grows
    have hwt : Grows w t := (link_moves respects_grows.toCarries _ _).outcome hlink
    have hts : Grows t s := grows_of_leads (by simp [Part.depth]) hopened hleads
    have hnoted' := hts.contexts.resolved _ _ (hwt.contexts.resolved _ _ (huw.contexts.resolved _ _ hnoted))
    cases hd.symm.trans hnoted'
    exact ⟨_, v, _, u, hq, ⟨.domain, hpass⟩, hr⟩

/-- The domain entity of a range and the intermediate entities of its path. -/
theorem obtains_of_enters_range {path : Nat} {ids : List Nat}
    (h : engine.Enters seed document (.range l path ids node position) s) :
    (∀ d, (s.contexts.get l.domain).resolved? = some d → engine.Obtains seed document d) ∧
      ∀ id ∈ ids, ∀ v, (s.contexts.get id).resolved? = some v → engine.Obtains seed document v := by
  rcases opener_of_enters h with h | ⟨q, v, parts, t, hq, hopens, hopened, hleads⟩
  · cases h
  cases hopens with
  | range l joined pathNode pathPosition path ids node position =>
    have hvt : Grows v t := grows_of_opening (by simp [Part.depth]) hopened
    have hts : Grows t s := grows_of_leads (by simp [Part.depth]) hopened hleads
    constructor
    · intro d hd
      obtain ⟨domainNode, u, hlink, -, huv⟩ := link_of_enters_path hq
      obtain ⟨d', hd', -⟩ := written_of_enters_link hlink
      cases hd.symm.trans (((hd'.grows huv).grows hvt).grows hts).resolved?_eq
      exact obtains_of_enters_link hlink hd'.resolved?_eq
    · intro id hid r hr
      have hpass := passes_of_openPath hopened hleads.mem
      rcases openPath_ok hopened with rfl | ⟨_, k, nodes, hids, rfl, -⟩
      · cases hleads.mem
      obtain ⟨_, _, _, ⟨⟩⟩ := Part.mem_ranges hleads.mem
      obtain ⟨before, entity, rest, earlier, u, divided, hearlier, rfl⟩ :=
        exists_earlier_of_intermediates hids hid
      obtain ⟨r', w, hr', -, hnoted⟩ := mem_ids_of_intermediates divided hearlier hids
      cases hr.symm.trans (hts.contexts.resolved _ _ hnoted)
      exact ⟨_, v, _, w, hq, ⟨.intermediate divided hearlier, hpass⟩, hr'⟩

/-! ## What is written -/

/-- The subject of a statement is a value of a resolved entity, and so is the object, unless the statement
gives a type or a label to a resolved entity. -/
structure Accounts (engine : Engine) (seed : List UInt8) (document : Xml.Document) (st : Statement) :
    Prop where
  subject : ∃ r v, engine.Obtains seed document r ∧ r.Comprises v ∧ v.text = st.subject
  object : (∃ r, engine.Obtains seed document r ∧ r.Comprises st.object) ∨
    ∃ y r u, (engine.course seed document).TakesUp y ∧ outcome y.run y.state = (.ok r, u) ∧ r.Tells st

theorem accounts_of_states {graph? : Option String} (h : engine.Obtains seed document r)
    (hst : r.States graph? st) : engine.Accounts seed document st := by
  obtain ⟨p, s, x, t, hentered, hx, hr⟩ := h
  obtain ⟨hsubject, hobject⟩ := Stretch.TakesUp.comprises_of_states
    (S := engine.course seed document) (.own hentered hx) hr hst
  have hobtains : engine.Obtains seed document r := ⟨p, s, x, t, hentered, hx, hr⟩
  exact ⟨⟨r, _, hobtains, hsubject, rfl⟩, hobject.imp_left fun h => ⟨r, hobtains, h⟩⟩

theorem accounts_of_chained {graph? : Option String} {values : List Value} {properties : List String}
    (h : ∀ v ∈ values, ∃ r, engine.Obtains seed document r ∧ v = r.value)
    (hst : Chained graph? values properties st) : engine.Accounts seed document st := by
  obtain ⟨i, a, property, b, ha, -, hb, rfl⟩ := hst
  obtain ⟨r, hr, rfl⟩ := h a (List.mem_of_getElem? ha)
  obtain ⟨r', hr', rfl⟩ := h b (List.mem_of_getElem? hb)
  exact ⟨⟨r, _, hr, .own r, rfl⟩, .inl ⟨r', hr', .own r'⟩⟩

/-- The branch of a range is made of entities that have been resolved. -/
theorem accounts_of_branch {path : Nat} {ids : List Nat} {d : Resolved} {vs : List Resolved}
    {properties : List String}
    (hentered : engine.Enters seed document (.range l path ids node position) s)
    (hd : (s.contexts.get l.domain).resolved? = some d)
    (hvs : List.Forall₂ (fun id v => (s.contexts.get id).resolved? = some v) ids vs)
    (hr : engine.Obtains seed document r) (hst : BranchStates l d vs r properties st) :
    engine.Accounts seed document st := by
  obtain ⟨hdomain, hids⟩ := obtains_of_enters_range hentered
  have hobtains (v : Resolved) (hv : v ∈ vs) : engine.Obtains seed document v := by
    obtain ⟨id, hid, hresolved⟩ := exists_mem_left_of_forall₂ hvs hv
    exact hids id hid v hresolved
  rcases hst with hst | ⟨v, hv, hst⟩ | hst | hst
  · exact accounts_of_states (hdomain d hd) hst
  · exact accounts_of_states (hobtains v hv) hst
  · exact accounts_of_states hr hst
  · refine accounts_of_chained (fun v hv => ?_) hst
    rw [List.cons_append, List.mem_cons, List.mem_append, List.mem_map, List.mem_singleton] at hv
    rcases hv with rfl | ⟨w, hw, rfl⟩ | rfl
    · exact ⟨d, hdomain d hd, rfl⟩
    · exact ⟨w, hobtains w hw, rfl⟩
    · exact ⟨r, hr, rfl⟩

/-- What an opening adds to the graph is accounted for by what has been resolved. -/
theorem accounts_of_opening (valid : engine.validate = .ok ())
    (hentered : engine.Enters seed document p s) (hopened : outcome p.opening s = (.ok parts, t))
    (hs : q ∉ s.graph.quads) (ht : q ∈ t.graph.quads) :
    ∃ st, engine.Accounts seed document st ∧ st.quad = .ok q := by
  have hpass : p.Passes s := by
    by_contra hpass
    have hsame : (after p.opening s).graph = s.graph :=
      opening_rel_of_not_passes (R := fun s t => t.graph = s.graph) (fun _ _ _ => rfl)
        (fun _ _ => rfl) (fun _ _ => rfl) (fun _ => rfl) hpass
    rw [after_eq hopened] at hsame
    exact hs (hsame ▸ ht)
  have hadded {P : Statement → Prop} (hgains : s.graph.Gains t.graph P)
      (hP : ∀ st, P st → engine.Accounts seed document st) :
      ∃ st, engine.Accounts seed document st ∧ st.quad = .ok q := by
    obtain ⟨st, hst, hquad⟩ := ((hgains.mem_iff q).1 ht).resolve_left hs
    exact ⟨st, hP st hst, hquad⟩
  cases p with
  | mapping scene number m =>
    obtain ⟨_, _, -, -, -, hgraph, -⟩ := openMapping_ok hopened
    exact absurd (hgraph ▸ ht) hs
  | domain scene place m mappingGraph? node position =>
    rcases openDomain_ok hopened with ⟨hguard, -⟩ | ⟨-, r, u, graph?, w, hr, -, hgraph, hlink, -⟩
    · cases hguard.symm.trans hpass
    have hfresh := Context.isFresh_fresh .domain node position none
    have hnew : (Resolution.ofDomain scene place m node position s).IsNew :=
      Resolution.isNew_entering hfresh none _ _
    have hplaced := (domainGraph_reads scene m mappingGraph? node position).outcome hgraph
    obtain ⟨hgains, -⟩ := link_of_run hnew (linked_entering hfresh) hr hplaced hlink
    exact hadded hgains fun st => accounts_of_states ⟨_, s, _, u, hentered, ⟨.domain, hpass⟩, hr⟩
  | link scene place m node id domainGraph? link =>
    obtain ⟨d, hd, -⟩ := written_of_enters_link hentered
    obtain ⟨linkGraph?, -, ⟨hmerge, -, hmerged⟩ | ⟨-, hfollowed⟩⟩ := openLink_ok hopened
    · rcases gains_of_linkMerge (s := s.countLink)
        (l := ⟨scene, place, m, link, id, domainGraph?, linkGraph?⟩) hd.resolved?_eq hmerged with
        ⟨-, hgraph⟩ | ⟨-, r, u, hr, -, hgains⟩
      · exact absurd (hgraph ▸ ht) hs
      · exact hadded hgains fun st =>
          accounts_of_states ⟨_, s, _, u, hentered, ⟨.merge hmerge hd.resolved?_eq, hpass⟩, hr⟩
    · have hsame : t.graph = s.countLink.graph :=
        (openFollowed_moves (R := fun s t => t.graph = s.graph) (fun _ _ _ => rfl) _).outcome hfollowed
      exact absurd (hsame ▸ ht) hs
  | path l joined node position =>
    have hreads : Reads 0 s t := after_eq hopened ▸ openPath_reads l joined node position s
    exact absurd (hreads.graph_eq ▸ ht) hs
  | range l path ids node position =>
    obtain ⟨⟨⟩, _, hlink, hrest⟩ := bind_ok.1 hopened
    cases hrest
    obtain ⟨⟨d, hd, -⟩, -, vs, hvs, htracks⟩ := tracks_of_enters_range hentered
    have hlength := relationships_length_of_validate valid (isOf_of_enters_range hentered)
    rw [hvs.length_eq] at hlength
    rcases gains_of_linkRange hd htracks hlength hlink with
      ⟨-, hgraph⟩ | ⟨-, r, properties, u, hr, -, hgains⟩
    · exact absurd (hgraph ▸ ht) hs
    · exact hadded hgains fun st => accounts_of_branch hentered hd.resolved?_eq
        (htracks.imp fun _ _ hv => hv.resolved?_eq) ⟨_, s, _, u, hentered, ⟨.range, hpass⟩, hr⟩

/-! ## Whole runs -/

/-- Every subject in the output of a run is associated with a node of the source. So is the value that became
an object, and the object has its text just if that was canonical, if it is a typed literal at all. Only
statements that give a resolved entity a type or a label have objects of their own. -/
theorem associated_of_mem_graph {report : Report} (h : engine.execute seed document = .ok report)
    (hq : q ∈ report.graph.quads) :
    (∃ n, document.HasNode n ∧
      ⟨document.structuralPath n, q.subject.text⟩ ∈ report.associations.pairs) ∧
    ((∃ value n, document.HasNode n ∧
        ⟨document.structuralPath n, value.text⟩ ∈ report.associations.pairs ∧
        Rdf.objectTerm value = .ok q.object ∧ (q.object.text? = some value.text ↔ ¬value.IsRewritten)) ∨
      ∃ y r u st, (engine.course seed document).TakesUp y ∧ outcome y.run y.state = (.ok r, u) ∧
        r.Tells st ∧ st.quad = .ok q) := by
  have valid := validate_of_execute h
  obtain rfl := eq_ofState_of_execute h
  obtain ⟨p, s, parts, t, hentered, hopened, hs, ht, -⟩ := exists_enters_of_mem_graph hq
  obtain ⟨st, ⟨⟨r, v, hr, hv, hsubject⟩, hobject⟩, hquad⟩ :=
    accounts_of_opening valid hentered hopened hs ht
  obtain ⟨hs, -, ho⟩ := Rdf.Statement.quad_ok hquad
  constructor
  · rw [hs, ← hsubject]
    exact lists_of_comprises hr hv
  · rcases hobject with ⟨r', hr', hv'⟩ | ⟨y, r', u, hy, hr', htells⟩
    · obtain ⟨n, hn, hmem⟩ := lists_of_comprises hr' hv'
      exact .inl ⟨st.object, n, hn, hmem, ho, Rdf.text?_of_objectTerm_iff ho⟩
    · exact .inr ⟨y, r', u, st, hy, hr', htells, hquad⟩

/-- A mapping that gives a person an age. -/
def ageEngine : Engine :=
  let person : Entity := ⟨["<urn:Person>"], some ⟨"UUID", []⟩, [], [], none, none⟩
  let age : Entity :=
    ⟨["xsd:integer"], some ⟨"Literal", [⟨"text", .xpath, ".", none⟩]⟩, [], [], none, none⟩
  let link : Link :=
    ⟨⟨["age"], []⟩, ⟨none, ["<urn:age>"], []⟩, ⟨"age/.", ⟨age, none⟩⟩, none, false⟩
  ⟨⟨.builtin, [⟨⟨"/person", ⟨person, none⟩, none⟩, [link], none, false⟩]⟩, .empty, none,
    { Settings.default with uuidWidth? := some 2 }⟩

def personOfAge (age : String) : Xml.Document :=
  let element (name : String) (content : List Xml.Content) : Xml.Content :=
    .element ⟨none, name⟩ [] [] content
  ⟨[element "person" [element "age" [.text age]]]⟩

/-- Whether a statement gives an age. -/
def givesAge (age : String) (q : Quad) : Bool :=
  q.predicate.text == "urn:age" && q.object.text? == some age

/-- The person of the output is found in the source, and so is its age. -/
theorem associated_of_mem_graph_age :
    ∃ report q, ageEngine.execute [] (personOfAge "7") = .ok report ∧ q ∈ report.graph.quads ∧
      q.predicate.text = "urn:age" ∧ q.object.text? = some "7" ∧
      (∃ n, (personOfAge "7").HasNode n ∧
        ⟨(personOfAge "7").structuralPath n, q.subject.text⟩ ∈ report.associations.pairs) ∧
      ⟨"/person[1]/age[1]", "7"⟩ ∈ report.associations.pairs := by
  have hrun : (ageEngine.execute [] (personOfAge "7")).toOption.any (fun report =>
      report.graph.quads.any (givesAge "7") &&
        decide (⟨"/person[1]/age[1]", "7"⟩ ∈ report.associations.pairs)) = true := by
    decide +kernel
  obtain ⟨report, hreport, htest⟩ := (Option.any_eq_true _ _).1 hrun
  rw [Bool.and_eq_true, List.any_eq_true, decide_eq_true_eq] at htest
  obtain ⟨⟨q, hq, hage⟩, hassociated⟩ := htest
  rw [givesAge, Bool.and_eq_true, beq_iff_eq, beq_iff_eq] at hage
  have hexecute := eq_ok_of_toOption hreport
  exact ⟨report, q, hexecute, hq, hage.1, hage.2, (associated_of_mem_graph hexecute hq).1, hassociated⟩

/-- An age with leading zeros is kept without them, and so no node is found for the number in the output,
which is neither a type nor a label. -/
theorem canonical_age_not_associated :
    ∃ report q, ageEngine.execute [] (personOfAge "007") = .ok report ∧ report.isComplete = true ∧
      q ∈ report.graph.quads ∧ q.predicate.text = "urn:age" ∧ q.object.text? = some "7" ∧
      (∀ e ∈ ageEngine.mapping.entities, e.labels = []) ∧
      ∀ a ∈ report.associations.pairs, a.value ≠ "7" := by
  have hrun : (ageEngine.execute [] (personOfAge "007")).toOption.any (fun report =>
      report.isComplete && report.graph.quads.any (givesAge "7") &&
        report.associations.pairs.all fun a => a.value != "7") = true := by
    decide +kernel
  obtain ⟨report, hreport, htest⟩ := (Option.any_eq_true _ _).1 hrun
  rw [Bool.and_eq_true, Bool.and_eq_true, List.any_eq_true, List.all_eq_true] at htest
  obtain ⟨⟨complete, q, hq, hage⟩, hnone⟩ := htest
  rw [givesAge, Bool.and_eq_true, beq_iff_eq, beq_iff_eq] at hage
  refine ⟨report, q, eq_ok_of_toOption hreport, complete, hq, hage.1, hage.2, by decide +kernel, ?_⟩
  exact fun a ha => bne_iff_ne.1 (hnone a ha)

end Engine

end Crosswalk
