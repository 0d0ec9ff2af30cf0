import Crosswalk.Proofs.NamedGraphs
import Crosswalk.Proofs.StoredBatches
import Crosswalk.Rdf.Document

/-!
# Which runs can be written

A report can be written in a format if the aliases that the format writes stand for IRIs, and for RDF/XML
if no property of the graph is a term of its syntax. Neither is looked at before the run: a mapping is
checked name by name, and an alias that no name uses is never looked up.

The aliases are those of the mapping and have nothing to do with the source. Where the properties of a graph
come from takes a look at the run: they are the type, the two properties of labels, and what the
relationships of the mapping stand for. So what is missing in the check is known: that every alias stands for an
IRI, and that no relationship stands for a term of the syntax.
-/

namespace Crosswalk

open Crosswalk.Rdf (Document Format Iri Quad Statement)
open Crosswalk.Xml (Location)

/-! ## Making a document -/

namespace Rdf.Document

variable {ns : Namespaces} {g : Rdf.Graph}

theorem exists_checkAliases_iff {entries : List (String × String)} :
    (∃ aliases, checkAliases entries = .ok aliases) ↔
      ∀ entry ∈ entries, (Iri.ofText? entry.2).isSome := by
  induction entries with
  | nil => simp [checkAliases]
  | cons entry rest ih =>
    obtain ⟨a, text⟩ := entry
    rw [List.forall_mem_cons, ← ih, checkAliases]
    cases Iri.ofText? text with
    | none => simp
    | some iri => cases checkAliases rest <;> simp [Except.map]

/-- A graph can be written in a format. -/
def Fits (format : Format) (ns : Namespaces) (g : Rdf.Graph) : Prop :=
  (format.writesAliases = true → ∀ entry ∈ ns.toList, (Iri.ofText? entry.2).isSome) ∧
    (format = .rdfXml → ∀ q ∈ g.quads, isReserved q.predicate = false)

theorem ofGraph_eq (format : Format) : ofGraph format ns g =
    (if format.writesAliases then checkAliases ns.toList else .ok []) >>= fun aliases =>
      if format == .rdfXml && g.quads.any fun q => isReserved q.predicate then .error .unwritable
      else .ok ⟨format, aliases, g.quads.map (flatten format)⟩ := by
  rw [ofGraph]
  split <;> rfl

theorem exists_ofGraph_iff {format : Format} :
    (∃ d, ofGraph format ns g = .ok d) ↔ Fits format ns g := by
  have haliases :
      (∃ aliases, (if format.writesAliases then checkAliases ns.toList else .ok []) = .ok aliases) ↔
        (format.writesAliases = true → ∀ entry ∈ ns.toList, (Iri.ofText? entry.2).isSome) := by
    rw [← exists_checkAliases_iff]
    cases format.writesAliases <;> simp
  have hreserved : (format == .rdfXml && g.quads.any fun q => isReserved q.predicate) = false ↔
      (format = .rdfXml → ∀ q ∈ g.quads, isReserved q.predicate = false) := by
    simp only [Bool.and_eq_false_imp, beq_iff_eq, List.any_eq_false, Bool.not_eq_true]
  rw [Fits, ← haliases, ← hreserved]
  constructor
  · rintro ⟨d, h⟩
    rw [ofGraph_eq] at h
    obtain ⟨aliases, h₁, h⟩ := bind_eq_ok.1 h
    split at h
    · cases h
    next hnot => exact ⟨⟨aliases, h₁⟩, by simpa using hnot⟩
  · rintro ⟨⟨aliases, h₁⟩, hnot⟩
    refine ⟨⟨format, aliases, g.quads.map (flatten format)⟩, ?_⟩
    rw [ofGraph_eq, bind_eq_ok]
    exact ⟨aliases, h₁, by rw [hnot]; rfl⟩

/-- All five formats are in order if every alias stands for an IRI and no property is reserved. -/
theorem forall_fits_iff : (∀ format, Fits format ns g) ↔
    (∀ entry ∈ ns.toList, (Iri.ofText? entry.2).isSome) ∧
      ∀ q ∈ g.quads, isReserved q.predicate = false :=
  ⟨fun h => ⟨(h .rdfXml).1 rfl, (h .rdfXml).2 rfl⟩, fun h _ => ⟨fun _ => h.1, fun _ => h.2⟩⟩

end Rdf.Document

/-! ## Properties -/

/-- The names that a run may come to for a property: the relationships of links, and of what is attached to
entities. -/
inductive MappingDocument.Relates (d : MappingDocument) : String → Prop
  | link {l : Link} {name : String} (hl : l ∈ d.links) (hmerge : l.target.isMerge = false)
      (h : name ∈ l.target.relationships) : Relates d name
  | attached {e : Entity} {a : Attached Entity} (he : e ∈ d.entities ++ d.merged)
      (ha : a ∈ e.additionals) : Relates d a.relationship

/-- The IRIs of the properties that a run may write. -/
inductive Engine.Writes (engine : Engine) : String → Prop
  | type : Writes engine Rdf.Graph.typeIri
  | label (call : GeneratorCall) : Writes engine (labelPropertyOf call)
  | named {name iri : String} (h : engine.mapping.Relates name)
      (hiri : engine.namespaces.expand name = .ok iri) : Writes engine iri

namespace Entity.IsRealizedBy

variable {ns : Namespaces} {e : Entity} {r : Resolved}

theorem label (h : e.IsRealizedBy ns r) {property : String} {label : Value}
    (hlabel : (property, label) ∈ r.labels) : ∃ call, property = labelPropertyOf call := by
  cases h with
  | literal _ _ hlabels _ =>
    rw [hlabels] at hlabel
    cases hlabel
  | resource _ _ hlabels _ _ =>
    obtain ⟨call, -, hcall⟩ := List.mem_map.1 (hlabels.subset (List.mem_map_of_mem hlabel))
    exact ⟨call, hcall.symm⟩

/-- What is attached to a resource realizes what is attached to its entity. -/
theorem attached (h : e.IsRealizedBy ns r) {a : Attached Resolved} (ha : a ∈ r.additionals) :
    ∃ b ∈ e.additionals, ns.expand b.relationship = .ok a.relationship ∧
      b.entity.IsRealizedBy ns a.entity := by
  cases h with
  | literal _ _ _ hadditionals =>
    rw [hadditionals] at ha
    cases ha
  | resource _ _ _ hrelationships hadditionals =>
    have hrelated := List.forall₂_map_right_iff.1 (mapM_eq_ok_iff.1 hrelationships)
    have hboth : List.Forall₂ (fun b a => ns.expand b.relationship = .ok a.relationship ∧
        b.entity.IsRealizedBy ns a.entity) e.additionals r.additionals := by
      obtain ⟨hlength, hpairs⟩ := List.forall₂_iff_zip.1 hrelated
      exact List.forall₂_iff_zip.2 ⟨hlength, fun hp => ⟨hpairs hp, hadditionals _ hp⟩⟩
    exact exists_mem_left_of_forall₂ hboth ha

end Entity.IsRealizedBy

variable {engine : Engine}

/-- The properties of what describes an entity of the mapping. -/
theorem Resolved.States.writes {graph? : Option String} {r : Resolved} {st : Statement}
    (h : r.States graph? st) {e : Entity} (he : e ∈ engine.mapping.entities ++ engine.mapping.merged)
    (hr : e.IsRealizedBy engine.namespaces r) : engine.Writes st.predicate := by
  induction h generalizing e with
  | type => exact .type
  | label _ hlabel =>
    obtain ⟨call, rfl⟩ := hr.label hlabel
    exact .label call
  | leads _ ha =>
    obtain ⟨b, hb, hiri, -⟩ := hr.attached ha
    exact .named (.attached he hb) hiri
  | further _ ha _ ih =>
    obtain ⟨b, hb, -, hrealized⟩ := hr.attached ha
    exact ih (List.mem_append_left _ (MappingDocument.attached_mem_entities he hb)) hrealized

/-- The type and the properties of labels are not terms of the syntax, so a reserved property has been named. -/
theorem Engine.Writes.exists_named {i : Iri} (h : engine.Writes i.text)
    (hreserved : Document.isReserved i = true) :
    ∃ name, engine.mapping.Relates name ∧ engine.namespaces.expand name = .ok i.text := by
  have hfree {text : String} (htext : text = i.text)
      (hfree : Document.reservedNames.all (fun name => text != Namespaces.rdf ++ name) = true) : False := by
    obtain ⟨name, hname, hsame⟩ := List.any_eq_true.1 hreserved
    have hdiffers := List.all_eq_true.1 hfree name hname
    simp_all
  generalize htext : i.text = text at h
  cases h with
  | type => exact (hfree htext.symm (by decide)).elim
  | label call =>
    refine (hfree htext.symm ?_).elim
    rw [labelPropertyOf]
    split <;> decide
  | named hname hiri => exact ⟨_, hname, hiri⟩

/-! ## Runs -/

namespace Engine

open Crosswalk.Run

variable {seed : List UInt8} {document : Xml.Document} {p : Part} {s t : RunState}

/-- The properties of what is gathered for an entity that has been resolved. -/
theorem writes_of_stage {x : Resolution} {r : Resolved} {graph? : Option String} {u w : RunState}
    (hx : x.IsNew) (hlinked : (x.state.contexts.get x.id).linked = false)
    (hscene : x.scene = engine.scene document)
    (he : x.entity ∈ engine.mapping.entities ++ engine.mapping.merged)
    (hr : outcome x.run x.state = (.ok r, u)) (hreads : Reads 0 u w) :
    ∀ st ∈ (Batch.empty.stage w.contexts graph? x.id).statements, engine.Writes st.predicate := by
  obtain ⟨-, hawaits⟩ := awaits_of_run hx hlinked hr
  have hrealized := Resolution.isRealizedBy_of_run hx hr
  rw [(awaits_of_reads hawaits hreads).stage]
  rw [hscene] at hrealized
  exact fun st hst => (Resolved.mem_dependents_iff.1 hst).writes he hrealized

theorem writes_of_domain {scene : Scene} {place : Place} {m : Mapping} {mappingGraph? : Option String}
    {node : Location} {position : Nat} {batch : Batch} {parts : List Part}
    (hentered : engine.Enters seed document (.domain scene place m mappingGraph? node position) s)
    (h : outcome (gatherDomain scene place m mappingGraph? node position) s = (.ok ⟨some batch, parts⟩, t)) :
    ∀ st ∈ batch.statements, engine.Writes st.predicate := by
  obtain ⟨hscene, ⟨hm, hskip⟩, -⟩ := Part.occursIn_of_enters hentered
  rcases gatherDomain_ok h with ⟨-, ⟨⟩, -⟩ | ⟨-, r, v, graph?, hr, -, hgraph, hgathered⟩
  have hfresh := Context.isFresh_fresh .domain node position none
  cases hgathered
  exact writes_of_stage (x := .ofDomain scene place m node position s)
    (Resolution.isNew_entering hfresh none _ _) (linked_entering hfresh) hscene
    (List.mem_append_left _ (MappingDocument.domain_mem_entities hm hskip)) hr
    ((domainGraph_reads scene m mappingGraph? node position).outcome hgraph)

theorem writes_of_link {scene : Scene} {place : Place} {m : Mapping} {node : Location} {id : Nat}
    {domainGraph? : Option String} {l : Link} {batch : Batch} {parts : List Part}
    (hentered : engine.Enters seed document (.link scene place m node id domainGraph? l) s)
    (h : outcome (gatherLink scene place m id domainGraph? l) s = (.ok ⟨some batch, parts⟩, t)) :
    ∀ st ∈ batch.statements, engine.Writes st.predicate := by
  obtain ⟨d, hd, -, -⟩ := written_of_enters_link hentered
  obtain ⟨hscene, ⟨hm, hskip⟩, -, hl, hlskip⟩ := Part.occursIn_of_enters hentered
  have hmem : l ∈ engine.mapping.links := MappingDocument.mem_links.2 ⟨m, hm, hskip, hl, hlskip⟩
  obtain ⟨_, t₁, h₁, h⟩ := bind_ok.1 h
  cases h₁
  obtain ⟨linkGraph?, t₂, h₂, h⟩ := bind_ok.1 h
  obtain ⟨rfl, -⟩ := namedGraph_ok h₂
  obtain ⟨c, t₃, h₃, h⟩ := bind_ok.1 h
  rw [outcome_context] at h₃
  cases h₃
  split at h
  next hmerge =>
    obtain ⟨batch?, v, hmerged, h⟩ := bind_ok.1 h
    cases h
    rcases gatherMerge_ok (s := s.countLink)
        (l := ⟨scene, place, m, l, id, domainGraph?, linkGraph?⟩) hd.resolved?_eq hmerged with
      ⟨-, ⟨⟩, -⟩ | ⟨r, hr, hbatch⟩
    have hfresh := Context.isFresh_fresh .range (s.contexts.get id).node (s.contexts.get id).position
      (some s.contexts.size)
    cases hbatch
    exact writes_of_stage (Resolution.isNew_entering hfresh _ _ _) (linked_entering hfresh) hscene
      (List.mem_append_right _ (MappingDocument.range_mem_merged hmem hmerge)) hr .refl
  next =>
    obtain ⟨_, v, -, h⟩ := bind_ok.1 h
    cases h

theorem writes_of_chain {graph? : Option String} {subject : String} {steps : List (String × Option Value)}
    (h : ∀ step ∈ steps, engine.Writes step.1) :
    ∀ st ∈ (chain graph? subject steps).1, engine.Writes st.predicate := by
  induction steps generalizing subject with
  | nil => exact fun st hst => by cases hst
  | cons step rest ih =>
    obtain ⟨property, value?⟩ := step
    obtain ⟨hproperty, hrest⟩ := List.forall_mem_cons.1 h
    cases value? with
    | none => exact ih hrest
    | some value => exact List.forall_mem_cons.2 ⟨hproperty, ih hrest⟩

theorem writes_of_chainStatements {graph? : Option String} {subject : String} {properties : List String}
    {values : List (Option Value)} {range : Value} (h : ∀ property ∈ properties, engine.Writes property) :
    ∀ st ∈ chainStatements graph? subject properties values range, engine.Writes st.predicate := by
  have hchain : ∀ st ∈ (chain graph? subject (properties.zip values)).1, engine.Writes st.predicate :=
    writes_of_chain fun step hstep => h _ (List.of_mem_zip hstep).1
  intro st hst
  dsimp only [chainStatements] at hst
  split at hst
  next last hlast =>
    rcases List.mem_append.1 hst with hst | hst
    · exact hchain st hst
    · rw [List.mem_singleton.1 hst]
      exact h last (List.mem_of_getLast? hlast)
  next => exact hchain st hst

theorem writes_of_range {l : LinkSetting} {path : Nat} {ids : List Nat} {node : Location} {position : Nat}
    {batch : Batch} (hentered : engine.Enters seed document (.range l path ids node position) s)
    (h : outcome (gatherRange l path ids node position) s = (.ok (some batch), t)) :
    ∀ st ∈ batch.statements, engine.Writes st.predicate := by
  obtain ⟨⟨d, hd, -, -⟩, -, vs, hvs, htracks⟩ := tracks_of_enters_range hentered
  obtain ⟨hscene, hm, hskip, hl, hlskip, hmerge⟩ := isOf_of_enters_range hentered
  have hmem : l.link ∈ engine.mapping.links := MappingDocument.mem_links.2 ⟨_, hm, hskip, hl, hlskip⟩
  have hlinked (e : Entity) (he : e ∈ l.link.target.entities ++ [l.link.range.target.entity]) :
      e ∈ engine.mapping.entities ++ engine.mapping.merged :=
    List.mem_append_left _ (MappingDocument.linked_mem_entities hmem hmerge he)
  obtain ⟨r, domainValue, properties, hr, -, hproperties, hgathers⟩ := gathers_of_gatherRange hd.linked_eq h
  have hreads := after_eq h ▸ gatherRange_reads l path ids node position s
  intro st hst
  rcases (hgathers.mem_statements st).1 hst with hst | ⟨id, hid, r', hr', hst⟩
  · refine writes_of_chainStatements (fun property hproperty => ?_) st hst
    obtain ⟨name, hname, hiri⟩ := exists_mem_left_of_forall₂ (mapM_eq_ok_iff.1 hproperties) hproperty
    rw [hscene] at hiri
    exact .named (.link hmem hmerge hname) hiri
  · rcases List.mem_append.1 hid with hid | hid
    · obtain ⟨v, hv, htracked⟩ := exists_mem_right_of_forall₂ htracks hid
      obtain rfl : r' = v :=
        Option.some.inj (hr'.resolved?_eq.symm.trans (htracked.reads hreads).resolved?_eq)
      obtain ⟨e, he, -, hrealized⟩ := exists_mem_left_of_forall₂ hvs hv
      exact hst.writes (hlinked e (List.mem_append_left _ he)) hrealized
    · have hfresh := Context.isFresh_fresh .range node position (some path)
      have hnew : (Resolution.ofRange l path node position s).IsNew :=
        Resolution.isNew_entering hfresh none _ s
      have hnoted := (awaits_of_run hnew (linked_entering hfresh) hr).2.resolved?_eq
      obtain rfl := List.mem_singleton.1 hid
      obtain rfl : r' = r := Option.some.inj (hr'.resolved?_eq.symm.trans hnoted)
      have hrealized : l.link.range.target.entity.IsRealizedBy l.scene.namespaces r' :=
        Resolution.isRealizedBy_of_run hnew hr
      rw [hscene] at hrealized
      exact hst.writes (hlinked _ (List.mem_append_right _ (List.mem_singleton_self _))) hrealized

/-- Whatever a run gathers has one of the properties that it may write. -/
theorem writes_of_gathered {batch : Batch} {parts : List Part} (hentered : engine.Enters seed document p s)
    (h : outcome p.gather s = (.ok ⟨some batch, parts⟩, t)) :
    ∀ st ∈ batch.statements, engine.Writes st.predicate := by
  cases p with
  | mapping =>
    obtain ⟨_, _, -, h⟩ := bind_ok.1 h
    cases h
  | domain => exact writes_of_domain hentered h
  | link => exact writes_of_link hentered h
  | path =>
    obtain ⟨_, _, -, h⟩ := bind_ok.1 h
    cases h
  | range =>
    obtain ⟨batch?, u, hgathered, h⟩ := bind_ok.1 h
    cases h
    exact writes_of_range hentered hgathered

theorem writes_of_mem_graph {q : Quad} (h : q ∈ (engine.final seed document).graph.quads) :
    engine.Writes q.predicate.text := by
  obtain ⟨p, s, parts, t, hentered, hopened, hs, ht, -⟩ := exists_enters_of_mem_graph h
  obtain ⟨batch, u, hgathered, st, hst, hquad⟩ := exists_gathered_of_opening hopened hs ht
  have hpredicate := Rdf.Graph.iriTerm_eq_ok_iff.1 (Rdf.Graph.quad_eq_ok_iff.1 hquad).2.2.1
  rw [← hpredicate]
  exact writes_of_gathered hentered hgathered st hst

variable {report : Report}

/-- What would have to be checked before a run for its report to be written in any format. -/
theorem fits_of_execute (aliases : ∀ entry ∈ engine.namespaces.toList, (Iri.ofText? entry.2).isSome)
    (free : ∀ name, engine.mapping.Relates name → ∀ i : Iri,
      engine.namespaces.expand name = .ok i.text → Document.isReserved i = false)
    (h : engine.execute seed document = .ok report) (format : Format) :
    Document.Fits format engine.namespaces report.graph := by
  obtain rfl := eq_ofState_of_execute h
  refine ⟨fun _ => aliases, fun _ q hq => ?_⟩
  by_contra hreserved
  rw [Bool.not_eq_false] at hreserved
  obtain ⟨name, hname, hiri⟩ := (writes_of_mem_graph hq).exists_named hreserved
  cases hreserved.symm.trans (free name hname _ hiri)

/-- A report can be written in all formats just if every alias stands for an IRI and no property is a term of
the syntax of RDF/XML, and a property that is has been named for a relationship. What only lists statements
can always be written. -/
theorem written_iff (h : engine.execute seed document = .ok report) :
    ((∀ format, ∃ d, Document.ofGraph format engine.namespaces report.graph = .ok d) ↔
      (∀ entry ∈ engine.namespaces.toList, (Iri.ofText? entry.2).isSome) ∧
        ∀ q ∈ report.graph.quads, Document.isReserved q.predicate = false) ∧
    (∀ q ∈ report.graph.quads, Document.isReserved q.predicate = true → ∃ name,
      engine.mapping.Relates name ∧ engine.namespaces.expand name = .ok q.predicate.text) ∧
    ∀ format : Format, format.writesAliases = false →
      ∃ d, Document.ofGraph format engine.namespaces report.graph = .ok d := by
  obtain rfl := eq_ofState_of_execute h
  refine ⟨?_, fun q hq hreserved => (writes_of_mem_graph hq).exists_named hreserved, fun format hplain => ?_⟩
  · simp only [Document.exists_ofGraph_iff, Document.forall_fits_iff]
  · refine Document.exists_ofGraph_iff.2 ⟨fun h => ?_, ?_⟩
    · cases hplain.symm.trans h
    · rintro rfl
      cases hplain

/-- Persons with a note that is attached by some relationship, and an alias that nothing uses. -/
def notingEngine (iri relationship : String) : Engine :=
  let note : Entity :=
    ⟨["rdfs:Literal"], some ⟨"Constant", [⟨"text", .constant, "n", none⟩]⟩, [], [], none, none⟩
  let person : Entity := ⟨["<urn:Person>"], some ⟨"UUID", []⟩, [], [⟨relationship, note⟩], none, none⟩
  ⟨⟨Namespaces.builtin.insert "crm" iri, [⟨⟨"/person", ⟨person, none⟩, none⟩, [], none, false⟩]⟩,
    .empty, none, { Settings.default with uuidWidth? := some 2 }⟩

def onePerson : Xml.Document := ⟨[.element ⟨none, "person"⟩ [] [] []]⟩

/-- Every alias stands for an IRI, and the note is attached by no term of the syntax. -/
theorem written_iff_person : ∃ report,
    (notingEngine "urn:crm:" "crm:note").execute [] onePerson = .ok report ∧ report.graph.size = 2 ∧
      ∀ format, ∃ d, Document.ofGraph format (notingEngine "urn:crm:" "crm:note").namespaces report.graph =
        .ok d := by
  obtain ⟨report, hreport, htest⟩ := exists_report_of_any
    (show ((notingEngine "urn:crm:" "crm:note").execute [] onePerson).toOption.any (fun report =>
      report.graph.size == 2 && report.graph.quads.all fun q => !Document.isReserved q.predicate) = true by
        decide +kernel)
  rw [Bool.and_eq_true, beq_iff_eq, List.all_eq_true] at htest
  obtain ⟨hsize, hfree⟩ := htest
  refine ⟨report, hreport, hsize, (written_iff hreport).1.2 ⟨by decide +kernel, fun q hq => ?_⟩⟩
  simpa using hfree q hq

/-- An alias that nothing uses and a relationship that is a term of the syntax pass the check and the run, and
then keep the report from being written. -/
theorem not_written_of_accepted :
    ((notingEngine "no iri" "<urn:note>").validate = .ok () ∧
      ∃ report, (notingEngine "no iri" "<urn:note>").execute [] onePerson = .ok report ∧
        ∀ format ∈ [Format.rdfXml, .turtle, .triG],
          Document.ofGraph format (notingEngine "no iri" "<urn:note>").namespaces report.graph =
            .error (.invalidAlias "crm")) ∧
    (notingEngine "urn:crm:" "rdf:Description").validate = .ok () ∧
      ∃ report, (notingEngine "urn:crm:" "rdf:Description").execute [] onePerson = .ok report ∧
        Document.ofGraph .rdfXml (notingEngine "urn:crm:" "rdf:Description").namespaces report.graph =
          .error .unwritable := by
  have hrefused (engine : Engine) (formats : List Format) (e : GraphError)
      (h : (engine.execute [] onePerson).toOption.any (fun report => formats.all fun format =>
        faultOf? (Document.ofGraph format engine.namespaces report.graph) = some e) = true) :
      ∃ report, engine.execute [] onePerson = .ok report ∧
        ∀ format ∈ formats, Document.ofGraph format engine.namespaces report.graph = .error e := by
    obtain ⟨report, hreport, htest⟩ := exists_report_of_any h
    refine ⟨report, hreport, fun format hformat => ?_⟩
    simpa [faultOf?_eq_some_iff] using List.all_eq_true.1 htest format hformat
  refine ⟨⟨by decide +kernel, hrefused _ _ _ (by decide +kernel)⟩, by decide +kernel, ?_⟩
  obtain ⟨report, hreport, hformats⟩ :=
    hrefused (notingEngine "urn:crm:" "rdf:Description") [.rdfXml] .unwritable (by decide +kernel)
  exact ⟨report, hreport, hformats .rdfXml (List.mem_singleton_self _)⟩

end Engine

end Crosswalk
