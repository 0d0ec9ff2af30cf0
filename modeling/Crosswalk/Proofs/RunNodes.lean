import Crosswalk.Proofs.JoinsInRuns
import Crosswalk.Proofs.OpenedParts

/-!
# Where the parts of a run stand

Every part of a run stands at a node of the document, also the parts of a link that joins: what is in an
index was selected from a node of the document. And every entity that is resolved is one that the
mapping describes, in a mapping and a link that are not skipped.
-/

namespace Crosswalk

open Crosswalk.Xml (Location)

namespace Run

/-! ## The nodes that joins find -/

theorem exists_answer_of_mem_rangesBy {l : LinkSetting} {join : Join} {domainNode n : Location}
    {answer : JoinQuestion → String → Except SetupError (List Location)} {nodes : List Location}
    (h : l.rangesBy answer join domainNode = .ok nodes) (hn : n ∈ nodes) :
    ∃ q ∈ l.questions join domainNode, ∃ value found, answer q value = .ok found ∧ n ∈ found := by
  obtain ⟨value, -, h⟩ := bind_eq_ok.1 h
  split at h
  · cases h
    cases hn
  simp only [LinkSetting.rangesFor] at h
  rcases hhop : join.hop? with _ | hop <;> rw [hhop] at h
  · exact ⟨_, by simp [LinkSetting.questions, Join.legs, hhop], value, nodes, h, hn⟩
  · obtain ⟨between, -, h⟩ := bind_eq_ok.1 h
    obtain ⟨answers, hanswers, h⟩ := bind_eq_ok.1 h
    cases h
    rw [List.mem_eraseDups, List.mem_flatten] at hn
    obtain ⟨found, hfound, hn⟩ := hn
    obtain ⟨m, -, hm⟩ := (mem_mapM_iff hanswers).1 hfound
    obtain ⟨key, -, hm⟩ := bind_eq_ok.1 hm
    split at hm
    · cases hm
      cases hn
    · exact ⟨_, by simp [LinkSetting.questions, Join.legs, hhop], key, found, hm, hn⟩

end Run

/-! ## Entities of a mapping -/

mutual

/-- An entity and all that hang off it. -/
def Entity.family : Entity → List Entity
  | ⟨types, generator?, labels, additionals, variableName?, globalName?⟩ =>
    ⟨types, generator?, labels, additionals, variableName?, globalName?⟩ ::
      attachedFamilies additionals

/-- The entities that are attached to another one, and all that hang off them. -/
def attachedFamilies : List (Attached Entity) → List Entity
  | [] => []
  | ⟨_, ⟨types, generator?, labels, additionals, variableName?, globalName?⟩⟩ :: rest =>
    Entity.family ⟨types, generator?, labels, additionals, variableName?, globalName?⟩ ++
      attachedFamilies rest

end

theorem mem_attachedFamilies {as : List (Attached Entity)} {e : Entity} :
    e ∈ attachedFamilies as ↔ ∃ a ∈ as, e ∈ a.entity.family := by
  induction as with
  | nil => simp [attachedFamilies]
  | cons a rest ih =>
    obtain ⟨relationship, ⟨types, generator?, labels, additionals, variableName?, globalName?⟩⟩ := a
    rw [attachedFamilies, List.mem_append, ih]
    simp

theorem Entity.family_eq (e : Entity) : e.family = e :: attachedFamilies e.additionals := by
  obtain ⟨types, generator?, labels, additionals, variableName?, globalName?⟩ := e
  rw [family]

theorem Entity.mem_family_self (e : Entity) : e ∈ e.family := by
  rw [family_eq]
  exact List.mem_cons_self

/-- What is attached to an entity that hangs off another one hangs off that one as well. -/
theorem Entity.mem_family_of_attached {root e : Entity} {a : Attached Entity} (he : e ∈ root.family)
    (ha : a ∈ e.additionals) : a.entity ∈ root.family := by
  induction root using Entity.induction with
  | step root ih =>
    rw [family_eq, List.mem_cons, mem_attachedFamilies] at he ⊢
    rcases he with rfl | ⟨b, hb, he⟩
    · exact .inr ⟨a, ha, a.entity.mem_family_self⟩
    · exact .inr ⟨b, hb, ih b hb he⟩

/-- The entities that are resolved for a link. What is merged takes its value from the domain, so it
does not count itself. -/
def Link.entities (l : Link) : List Entity :=
  if l.target.isMerge then attachedFamilies l.range.target.entity.additionals
  else (l.target.entities ++ [l.range.target.entity]).flatMap Entity.family

/-- The entities that a mapping describes and that may have values of their own. -/
def MappingDocument.entities (d : MappingDocument) : List Entity :=
  (d.mappings.filter (!·.skip)).flatMap fun m =>
    m.domain.target.entity.family ++ (m.links.filter (!·.skip)).flatMap Link.entities

theorem MappingDocument.mem_entities {d : MappingDocument} {m : Mapping} {e : Entity}
    (hm : m ∈ d.mappings) (hskip : m.skip = false)
    (he : e ∈ m.domain.target.entity.family ∨ ∃ l ∈ m.links, l.skip = false ∧ e ∈ l.entities) :
    e ∈ d.entities := by
  refine List.mem_flatMap.2 ⟨m, List.mem_filter.2 ⟨hm, by simp [hskip]⟩, ?_⟩
  rcases he with he | ⟨l, hl, hlskip, he⟩
  · exact List.mem_append_left _ he
  · refine List.mem_append_right _ (List.mem_flatMap.2 ⟨l, ?_, he⟩)
    exact List.mem_filter.2 ⟨hl, by simp [hlskip]⟩

/-! ## Links of a mapping -/

/-- The link is followed in a run: it does not merge, and neither it nor its mapping is skipped. -/
structure Run.LinkSetting.IsOf (engine : Engine) (document : Xml.Document) (l : LinkSetting) :
    Prop where
  scene_eq : l.scene = engine.scene document
  mapping_mem : l.mapping ∈ engine.mapping.mappings
  mapping_kept : l.mapping.skip = false
  link_mem : l.link ∈ l.mapping.links
  link_kept : l.link.skip = false
  isMerge_eq : l.link.target.isMerge = false

namespace Engine

open Crosswalk.Run

variable {engine : Engine} {seed : List UInt8} {document : Xml.Document} {p : Part} {s t : RunState}

theorem hasNode_of_asks {q : JoinQuestion} (h : engine.Asks seed document q) :
    document.HasNode q.base := by
  obtain ⟨leg, -, hq⟩ := exists_leg_of_asks h
  cases habsolute : leg.isAbsolute with
  | true =>
    rw [(hq.absolute habsolute).2]
    exact Xml.Document.hasNode_ofPath_nil document
  | false => exact (hq.relative habsolute).2.1

theorem hasNode_of_joinRanges {l : LinkSetting} {join : Join} {node : Location}
    (h : engine.Follows seed document l join node s) {u : RunState} (hu : u.joins = s.joins)
    {nodes : List Location} (hnodes : outcome (joinRanges l join node) u = (.ok nodes, t)) :
    ∀ n ∈ nodes, document.HasNode n := by
  intro n hn
  have hsource : l.scene.source = engine.source document := congrArg Scene.source h.scene_eq
  have hbuilt : l.scene.source.BuiltFor (engine.Asks seed document) u.joins := by
    rw [hsource, hu]
    exact builtFor_of_enters h.entered
  obtain ⟨first, hfirst, houtcome⟩ :=
    exists_outcome_joinRanges_eq hbuilt fun q hq => ⟨l, join, node, s, h, hq⟩
  rw [hnodes] at houtcome
  obtain ⟨q, hq, value, found, hscan, hn⟩ :=
    exists_answer_of_mem_rangesBy (mapError_eq_ok.1 houtcome.symm) hn
  obtain ⟨-, selected, hselected, hfound⟩ := Source.scan_spec hscan
  rw [hsource] at hselected
  exact Source.hasNode_select (hasNode_of_asks (hfirst q hq).2.1) hselected n ((hfound n).1 hn).1

theorem mem_of_openFollowed {l : LinkSetting} {domainNode : Location} {parts : List Part}
    (h : outcome (openFollowed l domainNode) s = (.ok parts, t)) (hq : p ∈ parts) :
    ∃ node position, p = .path l l.link.source.isJoin node position ∧
      ((l.link.source.isJoin = true ∧ ∃ join nodes, l.link.source.join = .ok join ∧
          outcome (joinRanges l join domainNode) s = (.ok nodes, t) ∧ node ∈ nodes) ∨
        l.link.source.isJoin = false ∧ ∃ nodes,
          l.scene.source.select domainNode l.link.source.expression = .ok nodes ∧ node ∈ nodes) := by
  rw [openFollowed] at h
  split at h
  next hjoin =>
    obtain ⟨join, t₁, h₁, h⟩ := bind_ok.1 h
    obtain ⟨hparsed, rfl⟩ := ofSetup_ok.1 h₁
    obtain ⟨nodes, t₂, hnodes, h⟩ := bind_ok.1 h
    cases h
    obtain ⟨_, node, hnode, rfl⟩ := Part.mem_paths hq
    have hmem := List.mem_of_getElem? hnode
    exact ⟨node, _, by rw [hjoin], .inl ⟨hjoin, join, nodes, hparsed, hnodes, hmem⟩⟩
  next hjoin =>
    obtain ⟨nodes, t₁, h₁, h⟩ := bind_ok.1 h
    obtain ⟨hnodes, rfl⟩ := ofSetup_ok.1 h₁
    cases h
    obtain ⟨_, node, hnode, rfl⟩ := Part.mem_paths hq
    rw [Bool.not_eq_true] at hjoin
    exact ⟨node, _, by rw [hjoin], .inr ⟨hjoin, nodes, hnodes, List.mem_of_getElem? hnode⟩⟩

/-- A part that is entered has been opened by another one, unless it is a mapping. -/
theorem opener_of_enters (h : engine.Enters seed document p s) :
    p.depth = 4 ∨ ∃ q v parts t, engine.Enters seed document q v ∧ q.Opens p ∧
      outcome q.opening v = (.ok parts, t) ∧ Leads parts t p s := by
  rcases Entered.opener h with h | ⟨q, v, parts, t, hq, hopened, hleads⟩
  · exact .inl (depth_of_mem_parts h.mem)
  · exact .inr ⟨q, v, parts, t, hq, Part.opens_of_opening hopened hleads.mem, hopened, hleads⟩

theorem isOf_of_enters_path {l : LinkSetting} {joined : Bool} {node : Location} {position : Nat}
    (h : engine.Enters seed document (.path l joined node position) s) : l.IsOf engine document := by
  rcases opener_of_enters h with h | ⟨q, v, parts, t, hq, hopens, -, -⟩
  · cases h
  cases hopens with
  | path scene place m domainNode id domainGraph? linkGraph? link hmerge =>
    obtain ⟨hscene, ⟨hm, hskip⟩, -, hl, hlskip⟩ := Part.occursIn_of_enters hq
    exact ⟨hscene, hm, hskip, hl, hlskip, hmerge⟩

theorem isOf_of_enters_range {l : LinkSetting} {path : Nat} {ids : List Nat} {node : Location}
    {position : Nat} (h : engine.Enters seed document (.range l path ids node position) s) :
    l.IsOf engine document := by
  rcases opener_of_enters h with h | ⟨q, v, parts, t, hq, hopens, -, -⟩
  · cases h
  cases hopens with
  | range => exact isOf_of_enters_path hq

theorem hasNode_of_enters_path {l : LinkSetting} {joined : Bool} {node : Location} {position : Nat}
    (h : engine.Enters seed document (.path l joined node position) s) : document.HasNode node := by
  rcases opener_of_enters h with h | ⟨q, v, parts, t, hq, hopens, hopened, hleads⟩
  · cases h
  cases hopens with
  | path scene place m domainNode id domainGraph? linkGraph? link hmerge =>
    obtain ⟨rfl, -, hdomain, -⟩ := Part.occursIn_of_enters hq
    have hnode := (typedEntry_of_enters hq).2.2
    obtain ⟨graph?, -, ⟨-, rfl, -⟩ | ⟨-, hfollowed⟩⟩ := openLink_ok hopened
    · cases hleads.mem
    rw [hnode] at hfollowed
    obtain ⟨node, position, heq, ⟨hjoin, join, nodes, hparsed, hnodes, hmem⟩ |
      ⟨-, nodes, hnodes, hmem⟩⟩ := mem_of_openFollowed hfollowed hleads.mem
    · cases heq
      have hfollows : engine.Follows seed document
          ⟨engine.scene document, place, m, link, id, domainGraph?, linkGraph?⟩ join domainNode v :=
        ⟨hq, hmerge, hjoin, hparsed⟩
      exact hasNode_of_joinRanges hfollows (u := v.countLink) rfl hnodes node hmem
    · cases heq
      have hdomain' : (engine.source document).document.HasNode domainNode := hdomain
      exact Source.hasNode_select hdomain' hnodes node hmem

theorem hasNode_of_enters_range {l : LinkSetting} {path : Nat} {ids : List Nat} {node : Location}
    {position : Nat} (h : engine.Enters seed document (.range l path ids node position) s) :
    document.HasNode node := by
  rcases opener_of_enters h with h | ⟨q, v, parts, t, hq, hopens, hopened, hleads⟩
  · cases h
  cases hopens with
  | range l joined pathNode pathPosition =>
    have hpath := hasNode_of_enters_path hq
    rcases openPath_ok hopened with rfl | ⟨_, _, nodes, -, rfl, ⟨-, -, rfl⟩ | ⟨-, -, hnodes⟩⟩
    · cases hleads.mem
    · obtain ⟨_, n, hn, ⟨⟩⟩ := Part.mem_ranges hleads.mem
      rwa [List.mem_singleton.1 (List.mem_of_getElem? hn)]
    · obtain ⟨_, n, hn, ⟨⟩⟩ := Part.mem_ranges hleads.mem
      have hsource : l.scene.source = engine.source document :=
        congrArg Scene.source (isOf_of_enters_path hq).scene_eq
      rw [hsource] at hnodes
      exact Source.hasNode_select hpath hnodes _ (List.mem_of_getElem? hn)

/-- Whatever is entered below a mapping is entered inside of a domain node. -/
theorem exists_domain_of_enters {p : Part} (h : engine.Enters seed document p s) (hp : p.depth ≤ 3) :
    ∃ place m mappingGraph? node position s₀,
      let domain := Part.domain (engine.scene document) place m mappingGraph? node position
      engine.Enters seed document domain s₀ ∧ (p = domain ∧ s = s₀ ∨ domain.Inside s₀ p s) := by
  obtain ⟨k, hk⟩ := Nat.exists_eq_add_of_le hp
  induction k generalizing p s with
  | zero =>
    cases p with
    | domain scene place m mappingGraph? node position =>
      obtain ⟨rfl, -⟩ := Part.occursIn_of_enters h
      exact ⟨place, m, mappingGraph?, node, position, s, h, .inl ⟨rfl, rfl⟩⟩
    | _ => simp [Part.depth] at hk
  | succ k ih =>
    rcases opener_of_enters h with h | ⟨q, v, parts, t, hq, hopens, hopened, hleads⟩
    · omega
    have hdepth := hopens.depth_eq
    obtain ⟨place, m, mappingGraph?, node, position, s₀, hdomain, hwithin⟩ :=
      ih hq (by omega) (by omega)
    refine ⟨place, m, mappingGraph?, node, position, s₀, hdomain, .inr ?_⟩
    rcases hwithin with ⟨rfl, rfl⟩ | ⟨parts₀, t₀, hopened₀, hentered⟩
    · exact ⟨parts, t, hopened, hleads.entered⟩
    · exact ⟨parts₀, t₀, hopened₀, hentered.within hopened hleads.entered⟩

/-- Whether a part that is entered is a range that satisfies a test. -/
def isRange (test : LinkSetting → Nat → List Nat → Location → Nat → RunState → Bool) :
    Part × RunState → Bool
  | (.range l path ids node position, s) => test l path ids node position s
  | _ => false

theorem exists_range_of_visits {n : Nat}
    {test : LinkSetting → Nat → List Nat → Location → Nat → RunState → Bool}
    (h : (visits n (engine.parts document) (engine.start seed)).any (isRange test) = true) :
    ∃ l path ids node position s, engine.Enters seed document (.range l path ids node position) s ∧
      test l path ids node position s = true := by
  obtain ⟨⟨p, s⟩, hmem, htest⟩ := List.any_eq_true.1 h
  cases p with
  | range l path ids node position =>
    exact ⟨l, path, ids, node, position, s, entered_of_mem_visits hmem, htest⟩
  | _ => cases htest

/-! ## Numbers -/

/-- The numbers of a place are those of the mapping and of the link, if there is one. -/
structure NumbersLink (engine : Engine) (place : Place) (m : Mapping) (l : Link) : Prop where
  mapping : ∃ i, place.mapping = i + 1 ∧ engine.mapping.mappings[i]? = some m
  link : ∃ j, place.link? = some (j + 1) ∧ m.links[j]? = some l

theorem NumbersLink.unique {place : Place} {m m' : Mapping} {l l' : Link}
    (h : engine.NumbersLink place m l) (h' : engine.NumbersLink place m' l') : m = m' ∧ l = l' := by
  obtain ⟨⟨i, hi, hm⟩, ⟨j, hj, hl⟩⟩ := h
  obtain ⟨⟨i', hi', hm'⟩, ⟨j', hj', hl'⟩⟩ := h'
  obtain rfl : i = i' := by omega
  obtain rfl : j = j' := by simpa [hj] using hj'
  obtain rfl : m = m' := by simpa [hm] using hm'
  exact ⟨rfl, by simpa [hl] using hl'⟩

theorem number_of_enters_mapping {scene : Scene} {number : Nat} {m : Mapping}
    (h : engine.Enters seed document (.mapping scene number m) s) :
    ∃ i, number = i + 1 ∧ engine.mapping.mappings[i]? = some m := by
  rcases Entered.opener h with h | ⟨q, v, parts, t, hq, hopened, hleads⟩
  · obtain ⟨i, b, hb, -, ⟨⟩⟩ := Part.mem_mappings h.mem
    exact ⟨i, by omega, hb⟩
  · have := (Part.opens_of_opening hopened hleads.mem).depth_eq
    have := q.depth_le
    simp [Part.depth] at *
    omega

theorem place_of_enters_domain {scene : Scene} {place : Place} {m : Mapping}
    {mappingGraph? : Option String} {node : Location} {position : Nat}
    (h : engine.Enters seed document (.domain scene place m mappingGraph? node position) s) :
    place.link? = none ∧ ∃ i, place.mapping = i + 1 ∧ engine.mapping.mappings[i]? = some m := by
  rcases opener_of_enters h with h | ⟨q, v, parts, t, hq, hopens, -, -⟩
  · cases h
  cases hopens with
  | domain => exact ⟨rfl, number_of_enters_mapping hq⟩

theorem numbersLink_of_enters {scene : Scene} {place : Place} {m : Mapping} {node : Location}
    {id : Nat} {domainGraph? : Option String} {l : Link}
    (h : engine.Enters seed document (.link scene place m node id domainGraph? l) s) :
    engine.NumbersLink place m l := by
  rcases opener_of_enters h with h | ⟨q, v, parts, t, hq, hopens, hopened, hleads⟩
  · cases h
  cases hopens with
  | link scene place m mappingGraph? node position k id domainGraph? l =>
    obtain ⟨-, hm⟩ := place_of_enters_domain hq
    refine ⟨hm, ?_⟩
    rcases openDomain_ok hopened with ⟨-, rfl, -⟩ | ⟨-, _, _, _, _, -, -, -, -, rfl⟩
    · cases hleads.mem
    · obtain ⟨j, l', hl, -, ⟨⟩⟩ := Part.mem_links hleads.mem
      exact ⟨j, by rw [Nat.add_comm], hl⟩

theorem numbersLink_of_enters_path {l : LinkSetting} {joined : Bool} {node : Location}
    {position : Nat} (h : engine.Enters seed document (.path l joined node position) s) :
    engine.NumbersLink l.place l.mapping l.link := by
  rcases opener_of_enters h with h | ⟨q, v, parts, t, hq, hopens, -, -⟩
  · cases h
  cases hopens with
  | path => exact numbersLink_of_enters hq

theorem numbersLink_of_enters_range {l : LinkSetting} {path : Nat} {ids : List Nat}
    {node : Location} {position : Nat}
    (h : engine.Enters seed document (.range l path ids node position) s) :
    engine.NumbersLink l.place l.mapping l.link := by
  rcases opener_of_enters h with h | ⟨q, v, parts, t, hq, hopens, -, -⟩
  · cases h
  cases hopens with
  | range => exact numbersLink_of_enters_path hq

/-! ## Resolutions -/

/-- Where a resolution happens, and of what. -/
structure Describes (engine : Engine) (document : Xml.Document) (x : Resolution) : Prop where
  scene_eq : x.scene = engine.scene document
  hasNode : document.HasNode x.context.node
  mem_entities : x.identity? = none → x.entity ∈ engine.mapping.entities
  attached_mem : ∀ a ∈ x.entity.additionals, ∀ e ∈ a.entity.family, e ∈ engine.mapping.entities

theorem describes_of_family {x : Resolution} (hscene : x.scene = engine.scene document)
    (hnode : document.HasNode x.context.node)
    (hfamily : ∀ e ∈ x.entity.family, e ∈ engine.mapping.entities) :
    engine.Describes document x where
  scene_eq := hscene
  hasNode := hnode
  mem_entities _ := hfamily _ (by rw [Entity.family_eq]; exact List.mem_cons_self)
  attached_mem a ha e he := hfamily e (by
    rw [Entity.family_eq, List.mem_cons, mem_attachedFamilies]
    exact .inr ⟨a, ha, he⟩)

theorem Describes.attaches {x y : Resolution} (h : engine.Describes document x)
    (hy : x.Attaches y) : engine.Describes document y := by
  obtain ⟨a, ha, hentity⟩ := hy.mem_additionals
  have hscene : y.scene = x.scene := by cases hy; rfl
  have hnode : y.context.node = x.context.node := by
    cases hy
    rw [Resolution.context_entering]
    rfl
  refine describes_of_family (hscene.trans h.scene_eq) (hnode ▸ h.hasNode) fun e he => ?_
  exact h.attached_mem a ha e (hentity ▸ he)

theorem describes_of_takes {x : Resolution} (hp : engine.Enters seed document p s)
    (hx : p.Resolves s x) : engine.Describes document x := by
  cases hx with
  | @domain scene place m =>
    obtain ⟨hscene, ⟨hm, hskip⟩, hnode⟩ := Part.occursIn_of_enters hp
    refine describes_of_family hscene ?_ fun e he => ?_
    · rwa [Resolution.context_entering]
    · exact MappingDocument.mem_entities hm hskip (.inl he)
  | @merge scene place m node id domainGraph? l s r hmerge hr =>
    obtain ⟨hscene, ⟨hm, hskip⟩, hnode, hl, hlskip⟩ := Part.occursIn_of_enters hp
    have hdomain := (typedEntry_of_enters hp).2.2
    refine ⟨hscene, ?_, by rintro ⟨⟩, fun a ha e he => ?_⟩
    · rw [Resolution.merging, Resolution.context_entering]
      exact hdomain ▸ hnode
    · refine MappingDocument.mem_entities hm hskip (.inr ⟨l, hl, hlskip, ?_⟩)
      rw [Link.entities, if_pos hmerge, mem_attachedFamilies]
      exact ⟨a, ha, he⟩
  | @intermediate l joined node position before after entity ids s t divided earlier =>
    have hl := isOf_of_enters_path hp
    refine describes_of_family hl.scene_eq ?_ fun e he => ?_
    · rw [Resolution.context_entering]
      exact hasNode_of_enters_path hp
    · refine MappingDocument.mem_entities hl.mapping_mem hl.mapping_kept
        (.inr ⟨l.link, hl.link_mem, hl.link_kept, ?_⟩)
      rw [Link.entities, hl.isMerge_eq, if_neg Bool.false_ne_true]
      exact List.mem_flatMap.2 ⟨entity, by simp [divided], he⟩
  | @range l path ids node position s =>
    have hl := isOf_of_enters_range hp
    refine describes_of_family hl.scene_eq ?_ fun e he => ?_
    · rw [Resolution.context_entering]
      exact hasNode_of_enters_range hp
    · refine MappingDocument.mem_entities hl.mapping_mem hl.mapping_kept
        (.inr ⟨l.link, hl.link_mem, hl.link_kept, ?_⟩)
      rw [Link.entities, hl.isMerge_eq, if_neg Bool.false_ne_true]
      exact List.mem_flatMap.2 ⟨l.link.range.target.entity, by simp, he⟩

theorem describes_of_resolves {y : Resolution} (h : engine.Resolves seed document y) :
    engine.Describes document y := by
  obtain ⟨p, s, x, hp, hx, hy⟩ := h
  induction hy with
  | refl => exact describes_of_takes hp hx
  | tail _ hz ih => exact ih.attaches hz

/-- What a mapping has for a role at a place, attached entities apart. -/
def EntityAt (engine : Engine) (place : Place) (e : Entity) : Role → Prop
  | .domain => place.link? = none ∧ ∃ i m, place.mapping = i + 1 ∧
      engine.mapping.mappings[i]? = some m ∧ e = m.domain.target.entity
  | .range => ∃ m l, engine.NumbersLink place m l ∧ e = l.range.target.entity
  | .intermediate k => ∃ m l, engine.NumbersLink place m l ∧ l.target.entities[k]? = some e
  | _ => False

theorem EntityAt.unique {place place' : Place} {e e' : Entity} {role : Role}
    (h : engine.EntityAt place e role) (h' : engine.EntityAt place' e' role)
    (hmapping : place.mapping = place'.mapping)
    (hlink : place.link?.getD 0 = place'.link?.getD 0) : e = e' := by
  have hplace (i j : Nat) (hi : place.link? = some i) (hj : place'.link? = some j) :
      place = place' := by
    obtain ⟨mapping, link?⟩ := place
    obtain ⟨mapping', link?'⟩ := place'
    cases hi
    cases hj
    cases hmapping
    cases hlink
    rfl
  cases role with
  | domain =>
    obtain ⟨-, i, m, hi, hm, rfl⟩ := h
    obtain ⟨-, j, n, hj, hn, rfl⟩ := h'
    obtain rfl : i = j := by omega
    obtain rfl : m = n := by simpa [hm] using hn
    rfl
  | range =>
    obtain ⟨m, l, hl, rfl⟩ := h
    obtain ⟨m', l', hl', rfl⟩ := h'
    obtain rfl := hplace _ _ hl.link.choose_spec.1 hl'.link.choose_spec.1
    rw [(hl.unique hl').2]
  | intermediate k =>
    obtain ⟨m, l, hl, he⟩ := h
    obtain ⟨m', l', hl', he'⟩ := h'
    obtain rfl := hplace _ _ hl.link.choose_spec.1 hl'.link.choose_spec.1
    rw [(hl.unique hl').2, he'] at he
    exact (Option.some.inj he).symm
  | path => exact h.elim
  | additional k => exact h.elim

theorem entityAt_of_takes {x : Resolution} (hp : engine.Enters seed document p s)
    (hx : p.Resolves s x) : engine.EntityAt x.place x.entity x.context.role := by
  cases hx with
  | domain =>
    rw [Resolution.context_entering]
    obtain ⟨hplace, i, hi, hm⟩ := place_of_enters_domain hp
    exact ⟨hplace, i, _, hi, hm, rfl⟩
  | merge =>
    rw [Resolution.merging, Resolution.context_entering]
    exact ⟨_, _, numbersLink_of_enters hp, rfl⟩
  | intermediate divided earlier =>
    rw [Resolution.context_entering]
    refine ⟨_, _, numbersLink_of_enters_path hp, ?_⟩
    simp [divided, Resolution.entering]
  | range =>
    rw [Resolution.context_entering]
    exact ⟨_, _, numbersLink_of_enters_range hp, rfl⟩

/-- The numbers and the role of an entity tell which one it is, unless it is attached to another one. -/
theorem entityAt_of_resolves {y : Resolution} (h : engine.Resolves seed document y)
    (hrole : ∀ k, y.context.role ≠ .additional k) :
    engine.EntityAt y.place y.entity y.context.role := by
  obtain ⟨p, s, x, hp, hx, hy⟩ := h
  cases hy with
  | refl => exact entityAt_of_takes hp hx
  | tail _ hz =>
    cases hz
    rw [Resolution.context_entering] at hrole
    exact absurd rfl (hrole _)

end Engine

end Crosswalk
