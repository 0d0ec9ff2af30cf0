import Crosswalk.Proofs.RunNodes

/-!
# What a valid mapping says

A mapping is checked by a walk of its own, from the mappings down to what hangs off their entities. What the
walk has passed is told here apart from the walk: of every entity, call, name and join that a run may come to.
-/

namespace Crosswalk

/-- What is attached to an entity of a link is one of its entities as well. -/
theorem Link.attached_mem_entities {l : Link} {e : Entity} {a : Attached Entity}
    (he : e ∈ l.entities) (ha : a ∈ e.additionals) : a.entity ∈ l.entities := by
  rw [Link.entities] at he ⊢
  split at he
  next hmerge =>
    rw [if_pos hmerge]
    obtain ⟨b, hb, he⟩ := mem_attachedFamilies.1 he
    exact mem_attachedFamilies.2 ⟨b, hb, Entity.mem_family_of_attached he ha⟩
  next hmerge =>
    rw [if_neg hmerge]
    obtain ⟨root, hroot, he⟩ := List.mem_flatMap.1 he
    exact List.mem_flatMap.2 ⟨root, hroot, Entity.mem_family_of_attached he ha⟩

/-- The calls of an entity itself. -/
def Entity.calls (e : Entity) : List GeneratorCall :=
  e.generator?.toList ++ e.labels

namespace MappingDocument

/-- The links that are followed in a run. -/
def links (d : MappingDocument) : List Link :=
  (d.mappings.filter (!·.skip)).flatMap fun m => m.links.filter (!·.skip)

/-- The entities that are merged into those of domain nodes, and so need no values of their own. -/
def merged (d : MappingDocument) : List Entity :=
  (d.links.filter (·.target.isMerge)).map (·.range.target.entity)

/-- The calls that a run may come to. -/
def calls (d : MappingDocument) : List GeneratorCall :=
  d.entities.flatMap Entity.calls ++ d.merged.flatMap Entity.labels ++
    (d.mappings.filter (!·.skip)).filterMap (·.domain.graphGenerator?)

/-- The names that a run may come to. -/
inductive Names (d : MappingDocument) : String → Prop
  | mappingGraph {m : Mapping} {name : String} (hm : m ∈ d.mappings) (hskip : m.skip = false)
      (h : m.graph? = some name) : Names d name
  | linkGraph {l : Link} {name : String} (hl : l ∈ d.links) (h : l.graph? = some name) : Names d name
  | property {l : Link} {name : String} (hl : l ∈ d.links) (hmerge : l.target.isMerge = false)
      (h : name ∈ l.target.relationships) : Names d name
  | type {e : Entity} {name : String} (he : e ∈ d.entities ++ d.merged) (h : name ∈ e.types) :
    Names d name
  | relationship {e : Entity} {a : Attached Entity} (he : e ∈ d.entities ++ d.merged)
      (ha : a ∈ e.additionals) : Names d a.relationship

variable {d : MappingDocument} {m : Mapping} {l : Link} {e : Entity} {call : GeneratorCall}

theorem mem_links : l ∈ d.links ↔ ∃ m ∈ d.mappings, m.skip = false ∧ l ∈ m.links ∧ l.skip = false := by
  simp [links, and_assoc]

theorem domain_mem_entities (hm : m ∈ d.mappings) (hskip : m.skip = false) :
    m.domain.target.entity ∈ d.entities :=
  mem_entities hm hskip (.inl (Entity.mem_family_self _))

/-- Of what is linked, the entities in between and the range have values of their own. -/
theorem linked_mem_entities (hl : l ∈ d.links) (hmerge : l.target.isMerge = false)
    (he : e ∈ l.target.entities ++ [l.range.target.entity]) : e ∈ d.entities := by
  obtain ⟨m, hm, hskip, hl, hlskip⟩ := mem_links.1 hl
  refine mem_entities hm hskip (.inr ⟨l, hl, hlskip, ?_⟩)
  rw [Link.entities, hmerge]
  exact List.mem_flatMap.2 ⟨e, he, e.mem_family_self⟩

theorem range_mem_merged (hl : l ∈ d.links) (hmerge : l.target.isMerge = true) :
    l.range.target.entity ∈ d.merged :=
  List.mem_map.2 ⟨l, List.mem_filter.2 ⟨hl, hmerge⟩, rfl⟩

/-- An entity that is described is in the family of one that the walk begins with. -/
theorem mem_entities_iff : e ∈ d.entities ↔
    (∃ m ∈ d.mappings, m.skip = false ∧ e ∈ m.domain.target.entity.family) ∨
      ∃ l ∈ d.links, e ∈ l.entities := by
  simp only [entities, links, List.mem_flatMap, List.mem_append, List.mem_filter]
  grind

theorem attached_mem_entities {a : Attached Entity} (he : e ∈ d.entities ++ d.merged)
    (ha : a ∈ e.additionals) : a.entity ∈ d.entities := by
  rw [mem_entities_iff]
  rcases List.mem_append.1 he with he | he
  · refine (mem_entities_iff.1 he).imp ?_ ?_
    · rintro ⟨m, hm, hskip, he⟩
      exact ⟨m, hm, hskip, Entity.mem_family_of_attached he ha⟩
    · rintro ⟨l, hl, he⟩
      exact ⟨l, hl, Link.attached_mem_entities he ha⟩
  · obtain ⟨l, hl, rfl⟩ := List.mem_map.1 he
    obtain ⟨hl, hmerge⟩ := List.mem_filter.1 hl
    refine .inr ⟨l, hl, ?_⟩
    rw [Link.entities, if_pos hmerge, mem_attachedFamilies]
    exact ⟨a, ha, a.entity.mem_family_self⟩

theorem mem_calls_of_mem_entities (he : e ∈ d.entities) (hcall : call ∈ e.calls) : call ∈ d.calls :=
  List.mem_append_left _ (List.mem_append_left _ (List.mem_flatMap.2 ⟨e, he, hcall⟩))

theorem generator_mem_calls (he : e ∈ d.entities) (hcall : e.generator? = some call) : call ∈ d.calls :=
  mem_calls_of_mem_entities he (List.mem_append_left _ (Option.mem_toList.2 hcall))

theorem label_mem_calls (he : e ∈ d.entities ++ d.merged) (hcall : call ∈ e.labels) :
    call ∈ d.calls := by
  rcases List.mem_append.1 he with he | he
  · exact mem_calls_of_mem_entities he (List.mem_append_right _ hcall)
  · exact List.mem_append_left _ (List.mem_append_right _ (List.mem_flatMap.2 ⟨e, he, hcall⟩))

theorem graphGenerator_mem_calls (hm : m ∈ d.mappings) (hskip : m.skip = false)
    (hcall : m.domain.graphGenerator? = some call) : call ∈ d.calls := by
  refine List.mem_append_right _ (List.mem_filterMap.2 ⟨m, List.mem_filter.2 ⟨hm, ?_⟩, hcall⟩)
  rw [hskip]
  rfl

end MappingDocument

/-! ## What the walk has passed -/

namespace Engine

variable {engine : Engine} {e : Entity}

theorem checkNames_iff {names : List String} : engine.checkNames names = .ok () ↔
    ∀ name ∈ names, ∃ iri, engine.namespaces.expand name = .ok iri := by
  induction names with
  | nil => simp [checkNames]
  | cons name rest ih => rw [checkNames, bind_const_eq_ok, List.forall_mem_cons, ← ih]

theorem checkCalls_iff {calls : List GeneratorCall} : engine.checkCalls calls = .ok () ↔
    ∀ call ∈ calls, engine.policy.check call = .ok () := by
  induction calls with
  | nil => simp [checkCalls]
  | cons call rest ih => rw [checkCalls, bind_unit_eq_ok, List.forall_mem_cons, ← ih]

theorem checkIdentity_iff {needsIdentity : Bool} {generator? : Option GeneratorCall}
    {variableName? globalName? : Option String} :
    engine.checkIdentity needsIdentity generator? variableName? globalName? = .ok () ↔
      (needsIdentity = true → generator? = none → variableName? = none → globalName? ≠ none) ∧
        ∀ call ∈ generator?.toList, engine.policy.check call = .ok () := by
  cases generator? with
  | some call => simp [checkIdentity]
  | none => cases needsIdentity <;> cases variableName? <;> cases globalName? <;> simp [checkIdentity]

theorem checkAdditionals_iff {as : List (Attached Entity)} : engine.checkAdditionals as = .ok () ↔
    ∀ a ∈ as, (∃ iri, engine.namespaces.expand a.relationship = .ok iri) ∧
      engine.checkEntity true a.entity = .ok () := by
  induction as with
  | nil => simp [checkAdditionals]
  | cons a rest ih =>
    obtain ⟨relationship, entity⟩ := a
    rw [checkAdditionals, bind_const_eq_ok, bind_unit_eq_ok, List.forall_mem_cons, ← ih, and_assoc]

/-- An entity has types, a source of its value where it needs one, and names and calls that stand for
something. -/
structure Accepts (engine : Engine) (needsIdentity : Bool) (e : Entity) : Prop where
  typed : e.types ≠ []
  types : ∀ name ∈ e.types, ∃ iri, engine.namespaces.expand name = .ok iri
  identified : needsIdentity = true → e.generator? = none → e.variableName? = none →
    e.globalName? ≠ none
  calls : ∀ call ∈ e.calls, engine.policy.check call = .ok ()
  relationships : ∀ a ∈ e.additionals, ∃ iri, engine.namespaces.expand a.relationship = .ok iri

theorem checkEntity_iff {needsIdentity : Bool} : engine.checkEntity needsIdentity e = .ok () ↔
    engine.Accepts needsIdentity e ∧ ∀ a ∈ e.additionals, engine.checkEntity true a.entity = .ok () := by
  obtain ⟨types, generator?, labels, additionals, variableName?, globalName?⟩ := e
  rw [checkEntity]
  constructor
  · intro h
    split at h
    · cases h
    next htyped =>
      simp only [bind_unit_eq_ok, checkNames_iff, checkIdentity_iff, checkCalls_iff,
        checkAdditionals_iff] at h
      obtain ⟨htypes, ⟨hidentified, hgenerator⟩, hlabels, hattached⟩ := h
      refine ⟨⟨by simpa using htyped, htypes, hidentified, ?_, fun a ha => (hattached a ha).1⟩,
        fun a ha => (hattached a ha).2⟩
      exact List.forall_mem_append.2 ⟨hgenerator, hlabels⟩
  · rintro ⟨h, hattached⟩
    obtain ⟨hgenerator, hlabels⟩ := List.forall_mem_append.1 h.calls
    rw [if_neg (by simpa using h.typed)]
    simp only [bind_unit_eq_ok, checkNames_iff, checkIdentity_iff, checkCalls_iff,
      checkAdditionals_iff]
    exact ⟨h.types, ⟨h.identified, hgenerator⟩, hlabels,
      fun a ha => ⟨h.relationships a ha, hattached a ha⟩⟩

theorem checkEntity_true_iff :
    engine.checkEntity true e = .ok () ↔ ∀ member ∈ e.family, engine.Accepts true member := by
  induction e using Entity.induction with
  | step e ih =>
    rw [checkEntity_iff, Entity.family_eq, List.forall_mem_cons]
    refine and_congr_right fun _ => ?_
    simp only [mem_attachedFamilies]
    grind

theorem checkEntity_false_iff : engine.checkEntity false e = .ok () ↔
    engine.Accepts false e ∧ ∀ member ∈ attachedFamilies e.additionals, engine.Accepts true member := by
  rw [checkEntity_iff]
  refine and_congr_right fun _ => ?_
  simp only [checkEntity_true_iff, mem_attachedFamilies]
  grind

theorem checkEntities_iff {es : List Entity} : engine.checkEntities es = .ok () ↔
    ∀ e ∈ es, engine.checkEntity true e = .ok () := by
  induction es with
  | nil => simp [checkEntities]
  | cons e rest ih => rw [checkEntities, bind_unit_eq_ok, List.forall_mem_cons, ← ih]

/-- The join of a link can be read, and its names and relationships stand for something and fit its
entities. -/
structure AcceptsLink (engine : Engine) (l : Link) : Prop where
  join : l.source.isJoin = true → ∃ join, l.source.join = .ok join
  graph : ∀ name ∈ l.graph?.toList, ∃ iri, engine.namespaces.expand name = .ok iri
  fits : l.target.isMerge = false → l.target.relationships.length = l.target.entities.length + 1
  relationships : l.target.isMerge = false →
    ∀ name ∈ l.target.relationships, ∃ iri, engine.namespaces.expand name = .ok iri

theorem checkJoin_iff {source : SourceRelation} :
    checkJoin source = .ok () ↔ (source.isJoin = true → ∃ join, source.join = .ok join) := by
  rw [checkJoin]
  cases source.isJoin with
  | false => simp
  | true => cases source.join <;> simp [Except.map]

theorem checkRelation_iff {target : TargetRelation} : engine.checkRelation target = .ok () ↔
    target.relationships.length = target.entities.length + 1 ∧
      (∀ name ∈ target.relationships, ∃ iri, engine.namespaces.expand name = .ok iri) ∧
      ∀ e ∈ target.entities, engine.checkEntity true e = .ok () := by
  rw [checkRelation]
  split
  next hne =>
    simp only [bne_iff_ne, ne_eq] at hne
    simp [hne]
  next heq =>
    simp only [bne_iff_ne, ne_eq, not_not] at heq
    rw [bind_unit_eq_ok, checkNames_iff, checkEntities_iff]
    exact ⟨fun h => ⟨heq, h⟩, fun h => h.2⟩

/-- The entities of a link are accepted: what is merged needs no value of its own. -/
theorem checkLink_iff {l : Link} : engine.checkLink l = .ok () ↔ engine.AcceptsLink l ∧
    (l.target.isMerge = true → engine.Accepts false l.range.target.entity) ∧
    ∀ e ∈ l.entities, engine.Accepts true e := by
  rw [checkLink, Link.entities]
  cases hmerge : l.target.isMerge with
  | true =>
    simp only [bind_unit_eq_ok, checkJoin_iff, checkNames_iff, if_true, checkEntity_false_iff]
    constructor
    · rintro ⟨hjoin, hgraph, hrange, hattached⟩
      exact ⟨⟨hjoin, hgraph, by simp [hmerge], by simp [hmerge]⟩, fun _ => hrange, hattached⟩
    · rintro ⟨h, hrange, hattached⟩
      exact ⟨h.join, h.graph, hrange trivial, hattached⟩
  | false =>
    simp only [bind_unit_eq_ok, checkJoin_iff, checkNames_iff, Bool.false_eq_true, if_false,
      checkRelation_iff, checkEntity_true_iff]
    constructor
    · rintro ⟨hjoin, hgraph, ⟨hfits, hnames, hbetween⟩, hrange⟩
      refine ⟨⟨hjoin, hgraph, fun _ => hfits, fun _ => hnames⟩, by simp, ?_⟩
      intro e he
      obtain ⟨root, hroot, he⟩ := List.mem_flatMap.1 he
      rcases List.mem_append.1 hroot with hroot | hroot
      · exact hbetween root hroot e he
      · exact hrange e (List.mem_singleton.1 hroot ▸ he)
    · rintro ⟨h, -, hlinked⟩
      have hlinked (root : Entity) (hroot : root ∈ l.target.entities ++ [l.range.target.entity])
          (e : Entity) (he : e ∈ root.family) : engine.Accepts true e :=
        hlinked e (List.mem_flatMap.2 ⟨root, hroot, he⟩)
      exact ⟨h.join, h.graph, ⟨h.fits hmerge, h.relationships hmerge,
        fun root hroot => hlinked root (List.mem_append_left _ hroot)⟩,
        hlinked _ (List.mem_append_right _ (List.mem_singleton_self _))⟩

theorem checkLinks_iff {ls : List Link} : engine.checkLinks ls = .ok () ↔
    ∀ l ∈ ls, l.skip = false → engine.checkLink l = .ok () := by
  induction ls with
  | nil => simp [checkLinks]
  | cons l rest ih =>
    rw [checkLinks, List.forall_mem_cons, ← ih]
    cases l.skip <;> simp [bind_unit_eq_ok]

theorem checkMapping_iff {m : Mapping} : engine.checkMapping m = .ok () ↔
    engine.checkEntity true m.domain.target.entity = .ok () ∧
      (∀ call ∈ m.domain.graphGenerator?.toList, engine.policy.check call = .ok ()) ∧
      (∀ name ∈ m.graph?.toList, ∃ iri, engine.namespaces.expand name = .ok iri) ∧
      ∀ l ∈ m.links, l.skip = false → engine.checkLink l = .ok () := by
  simp only [checkMapping, bind_unit_eq_ok, checkCalls_iff, checkNames_iff, checkLinks_iff]

theorem checkMappings_iff {ms : List Mapping} : engine.checkMappings ms = .ok () ↔
    ∀ m ∈ ms, m.skip = false → engine.checkMapping m = .ok () := by
  induction ms with
  | nil => simp [checkMappings]
  | cons m rest ih =>
    rw [checkMappings, List.forall_mem_cons, ← ih]
    cases m.skip <;> simp [bind_unit_eq_ok]

/-- What can be said about a mapping before there is a document is in order. -/
structure IsValid (engine : Engine) : Prop where
  entities : ∀ e ∈ engine.mapping.entities, engine.Accepts true e
  merged : ∀ e ∈ engine.mapping.merged, engine.Accepts false e
  graphGenerators : ∀ m ∈ engine.mapping.mappings, m.skip = false →
    ∀ call ∈ m.domain.graphGenerator?.toList, engine.policy.check call = .ok ()
  graphs : ∀ m ∈ engine.mapping.mappings, m.skip = false →
    ∀ name ∈ m.graph?.toList, ∃ iri, engine.namespaces.expand name = .ok iri
  links : ∀ l ∈ engine.mapping.links, engine.AcceptsLink l

/-- The walk passes just the mappings of which everything that a run may come to is in order. -/
theorem validate_iff : engine.validate = .ok () ↔ engine.IsValid := by
  rw [validate, checkMappings_iff]
  simp only [checkMapping_iff, checkEntity_true_iff, checkLink_iff]
  constructor
  · intro h
    have hlink (l : Link) (hl : l ∈ engine.mapping.links) : engine.AcceptsLink l ∧
        (l.target.isMerge = true → engine.Accepts false l.range.target.entity) ∧
        ∀ e ∈ l.entities, engine.Accepts true e := by
      obtain ⟨m, hm, hskip, hl, hlskip⟩ := MappingDocument.mem_links.1 hl
      exact (h m hm hskip).2.2.2 l hl hlskip
    refine ⟨fun e he => ?_, fun e he => ?_, fun m hm hskip => (h m hm hskip).2.1,
      fun m hm hskip => (h m hm hskip).2.2.1, fun l hl => (hlink l hl).1⟩
    · rcases MappingDocument.mem_entities_iff.1 he with ⟨m, hm, hskip, he⟩ | ⟨l, hl, he⟩
      · exact (h m hm hskip).1 e he
      · exact (hlink l hl).2.2 e he
    · obtain ⟨l, hl, rfl⟩ := List.mem_map.1 he
      obtain ⟨hl, hmerge⟩ := List.mem_filter.1 hl
      exact (hlink l hl).2.1 hmerge
  · intro h m hm hskip
    refine ⟨fun e he => h.entities e (MappingDocument.mem_entities hm hskip (.inl he)),
      h.graphGenerators m hm hskip, h.graphs m hm hskip, fun l hl hlskip => ?_⟩
    have hmem : l ∈ engine.mapping.links := MappingDocument.mem_links.2 ⟨m, hm, hskip, hl, hlskip⟩
    exact ⟨h.links l hmem, fun hmerge => h.merged _ (MappingDocument.range_mem_merged hmem hmerge),
      fun e he => h.entities e (MappingDocument.mem_entities hm hskip (.inr ⟨l, hl, hlskip, he⟩))⟩

namespace IsValid

variable (h : engine.IsValid)

include h

theorem expand {name : String} (hname : engine.mapping.Names name) :
    ∃ iri, engine.namespaces.expand name = .ok iri := by
  have haccepts {e : Entity} (he : e ∈ engine.mapping.entities ++ engine.mapping.merged) :
      ∃ needsIdentity, engine.Accepts needsIdentity e :=
    (List.mem_append.1 he).elim (fun he => ⟨_, h.entities e he⟩) fun he => ⟨_, h.merged e he⟩
  cases hname with
  | mappingGraph hm hskip hgraph => exact h.graphs _ hm hskip name (Option.mem_toList.2 hgraph)
  | linkGraph hl hgraph => exact (h.links _ hl).graph name (Option.mem_toList.2 hgraph)
  | property hl hmerge hmem => exact (h.links _ hl).relationships hmerge name hmem
  | type he hmem =>
    obtain ⟨_, he⟩ := haccepts he
    exact he.types name hmem
  | relationship he ha =>
    obtain ⟨_, he⟩ := haccepts he
    exact he.relationships _ ha

theorem check {call : GeneratorCall} (hcall : call ∈ engine.mapping.calls) :
    engine.policy.check call = .ok () := by
  simp only [MappingDocument.calls, List.mem_append, List.mem_flatMap, List.mem_filterMap,
    List.mem_filter, Bool.not_eq_true'] at hcall
  rcases hcall with (⟨e, he, hcall⟩ | ⟨e, he, hcall⟩) | ⟨m, ⟨hm, hskip⟩, hcall⟩
  · exact (h.entities e he).calls call hcall
  · exact (h.merged e he).calls call (List.mem_append_right _ hcall)
  · exact h.graphGenerators m hm hskip call (Option.mem_toList.2 hcall)

end IsValid

end Engine

end Crosswalk
