import Crosswalk.Proofs.PathElements
import Crosswalk.Proofs.ValidMappings
import Mathlib.Data.List.Chain
import Mathlib.Data.List.Induction

/-!
# Which order of a path is accepted

The children of a relation are read into two lists, and what is checked afterwards is how long these are. So of a
path that is accepted it is known how many elements of each kind it has; that they stand in turn is not. They do
just if no two neighbours are of the same kind: with one more of the first kind than of the second there is
then no other way to place them. For the source even the numbers are looked at in a join only, and nodes that
are too many are passed over by the expression of the path.
-/

namespace Crosswalk

/-! ## Names in turn -/

/-- A name, and then the second and the first one in turn any number of times. -/
inductive Alternates (first second : String) : List String → Prop
  | single : Alternates first second [first]
  | step {names : List String} (h : Alternates first second names) :
    Alternates first second (first :: second :: names)

section

variable {first second : String} {names : List String}

theorem Alternates.head?_eq (h : Alternates first second names) : names.head? = some first := by
  cases h <;> rfl

theorem Alternates.isChain (h : Alternates first second names) (hne : first ≠ second) :
    names.IsChain (· ≠ ·) := by
  induction h with
  | single => exact List.isChain_singleton _
  | step h ih =>
    refine List.isChain_cons_cons.2 ⟨hne, List.isChain_cons.2 ⟨fun name hname => ?_, ih⟩⟩
    rw [h.head?_eq] at hname
    cases hname
    exact hne.symm

theorem Alternates.count_eq (h : Alternates first second names) (hne : first ≠ second) :
    names.count first = names.count second + 1 := by
  induction h with
  | single => simp [hne]
  | step h ih => simp [hne, hne.symm, ih]

/-- The induction goes on by two names: the second name can not come first, as the first one would then have to
stand beside itself further on. -/
theorem alternates_of_isChain (hne : first ≠ second) (hnames : ∀ name ∈ names, name = first ∨ name = second)
    (hchain : names.IsChain (· ≠ ·)) (hcount : names.count first = names.count second + 1) :
    Alternates first second names := by
  induction names using List.twoStepInduction with
  | nil => simp at hcount
  | singleton name =>
    rcases hnames name List.mem_cons_self with rfl | rfl
    · exact .single
    · simp [hne.symm] at hcount
  | cons_cons name other rest ih _ =>
    rw [List.isChain_cons_cons] at hchain
    have hrest : Alternates first second rest := by
      refine ih (fun name hname => hnames name (by simp [hname])) hchain.2.of_cons ?_
      rcases hnames name (by simp) with rfl | rfl <;> rcases hnames other (by simp) with rfl | rfl
      · exact absurd rfl hchain.1
      · simpa [hne, hne.symm] using hcount
      · simpa [hne, hne.symm] using hcount
      · exact absurd rfl hchain.1
    rcases hnames name (by simp) with rfl | rfl <;> rcases hnames other (by simp) with rfl | rfl
    · exact absurd rfl hchain.1
    · exact .step hrest
    · exact absurd rfl ((List.isChain_cons.1 hchain.2).1 _ hrest.head?_eq)
    · exact absurd rfl hchain.1

theorem alternates_map_alternate {α : Type} {name : α → String} {as bs : List α}
    (has : ∀ a ∈ as, name a = first) (hbs : ∀ b ∈ bs, name b = second) (hlength : as.length = bs.length + 1) :
    Alternates first second ((alternate as bs).map name) := by
  fun_induction alternate as bs with
  | case1 bs => simp at hlength
  | case2 a as =>
    obtain rfl : as = [] := by simpa using hlength
    rw [List.map_singleton, has a List.mem_cons_self]
    exact .single
  | case3 a as b bs ih =>
    rw [List.forall_mem_cons] at has hbs
    rw [List.map_cons, List.map_cons, has.1, hbs.1]
    exact .step (ih has.2 hbs.2 (by simpa using hlength))

/-- If the names of some members alternate, the members are put together again from the two kinds of them. -/
theorem Alternates.eq_alternate {α : Type} {name : α → String} {as : List α}
    (h : Alternates first second (as.map name)) (hne : first ≠ second) :
    as = alternate (as.filter (name · == first)) (as.filter (name · == second)) := by
  generalize hnames : as.map name = names at h
  induction h generalizing as with
  | single =>
    obtain ⟨a, rfl, rfl⟩ := List.map_eq_singleton_iff.1 hnames
    simp [hne, alternate]
  | step h ih =>
    obtain ⟨a, _, rfl, rfl, htail⟩ := List.map_eq_cons_iff.1 hnames
    obtain ⟨b, rest, rfl, rfl, hrest⟩ := List.map_eq_cons_iff.1 htail
    simp [hne, hne.symm, alternate, ← ih hrest]

end

namespace Layout

open Crosswalk.Xml (Content)

/-! ## Steps of a relation -/

/-- The elements that a relation goes along. A condition is not one of them. -/
def pathSteps (c : Content) : List Content :=
  c.elements.filter (·.localName != "if")

def stepNames (c : Content) : List String :=
  (pathSteps c).map Content.localName

/-- An element of the path of a link. -/
def pathPart (l : Content) (name : String) : Except LayoutFault Content := do
  child (← child l "path") name

/-- The link elements that are followed in a run. -/
def followedLinks (root : Content) : List Content :=
  ((grouped root "mappings" "mapping").filter fun m => !flag m "skip").flatMap fun m =>
    (m.elementsNamed "link").filter fun l => !flag l "skip"

variable {c : Content} {first second : String}

theorem filter_pathSteps {name : String} (hname : name ≠ "if") :
    (pathSteps c).filter (·.localName == name) = c.elementsNamed name := by
  rw [pathSteps, List.filter_filter, elementsNamed_eq_filter]
  refine List.filter_congr fun e _ => ?_
  by_cases h : e.localName = name
  · simp [h, hname]
  · simp [h]

theorem count_stepNames {name : String} (hname : name ≠ "if") :
    (stepNames c).count name = (c.elementsNamed name).length := by
  rw [← filter_pathSteps hname, stepNames, List.count, List.countP_map, List.countP_eq_length_filter]
  rfl

theorem alternates_stepNames_iff (hne : first ≠ second) (hfirst : first ≠ "if") (hsecond : second ≠ "if")
    (hall : ∀ e ∈ c.elements, e.localName = first ∨ e.localName = second ∨ e.localName = "if") :
    Alternates first second (stepNames c) ↔ (stepNames c).IsChain (· ≠ ·) ∧
      (c.elementsNamed first).length = (c.elementsNamed second).length + 1 := by
  rw [← count_stepNames hfirst, ← count_stepNames hsecond]
  refine ⟨fun h => ⟨h.isChain hne, h.count_eq hne⟩, fun h =>
    alternates_of_isChain hne (fun name hname => ?_) h.1 h.2⟩
  obtain ⟨e, he, rfl⟩ := List.mem_map.1 hname
  obtain ⟨he, hif⟩ := List.mem_filter.1 he
  rcases hall e he with h | h | h
  · exact .inl h
  · exact .inr h
  · simp [h] at hif

theorem alternates_stepNames_iff_eq (hne : first ≠ second) (hfirst : first ≠ "if") (hsecond : second ≠ "if") :
    Alternates first second (stepNames c) ↔
      pathSteps c = alternate (c.elementsNamed first) (c.elementsNamed second) ∧
        (c.elementsNamed first).length = (c.elementsNamed second).length + 1 := by
  constructor
  · intro h
    rw [← count_stepNames hfirst, ← count_stepNames hsecond]
    refine ⟨?_, h.count_eq hne⟩
    rw [← filter_pathSteps hfirst, ← filter_pathSteps hsecond]
    exact h.eq_alternate hne
  · rintro ⟨h, hlength⟩
    rw [stepNames, h]
    exact alternates_map_alternate (fun _ => localName_of_mem_elementsNamed)
      (fun _ => localName_of_mem_elementsNamed) hlength

end Layout

/-! ## Lists that are checked -/

/-- No node is passed over just if there is a relation behind each. -/
theorem SourceRelation.interleave_eq_iff {relations nodes : List String} (hne : relations ≠ []) :
    interleave relations nodes = alternate relations nodes ↔ nodes.length < relations.length := by
  fun_induction interleave relations nodes with
  | case1 => contradiction
  | case2 relation nodes => cases nodes <;> simp [alternate]
  | case3 relation relations hrelations ih =>
    have hnone : alternate relations [] = relations := by cases relations <;> rfl
    have hrest : relations ≠ [] := hrelations
    simpa [alternate, hnone, List.length_pos_iff, hrest] using ih hrest
  | case4 relation relations node nodes hrelations ih =>
    simpa [alternate] using ih hrelations

theorem SourceRelation.length_of_join {r : SourceRelation} {join : Join} (h : r.join = .ok join) :
    r.relations.length = r.nodes.length + 1 := by
  rw [SourceRelation.join] at h
  split at h
  next hjoin =>
    rw [join?] at hjoin
    split at hjoin
    next hrelations hnodes =>
      rw [hrelations, hnodes]
      rfl
    next hrelations hnodes =>
      rw [hrelations, hnodes]
      rfl
    next => cases hjoin
  next => cases h

theorem TargetRelation.length_of_isMerge {r : TargetRelation} (h : r.isMerge = true) :
    r.relationships.length = r.entities.length + 1 := by
  rw [isMerge] at h
  split at h
  next hentities hrelationships =>
    rw [hentities, hrelationships]
    rfl
  next => cases h

namespace Layout

open Crosswalk.Xml (Content)

/-! ## Accepted links -/

/-- What is known of the source of a path that is accepted. -/
structure SourceSteps (c : Content) (r : SourceRelation) : Prop where
  relations : r.relations = (c.elementsNamed "relation").map textOf
  nodes : r.nodes = (c.elementsNamed "node").map textOf
  joined : r.isJoin = true → r.relations.length = r.nodes.length + 1
  alternates : Alternates "relation" "node" (stepNames c) ↔
    (stepNames c).IsChain (· ≠ ·) ∧ r.relations.length = r.nodes.length + 1
  determined : Alternates "relation" "node" (stepNames c) ↔
    pathSteps c = alternate (c.elementsNamed "relation") (c.elementsNamed "node") ∧
      r.relations.length = r.nodes.length + 1
  expressed : SourceRelation.interleave r.relations r.nodes = alternate r.relations r.nodes ↔
    r.nodes.length < r.relations.length

/-- What is known of the target of a path that is accepted. -/
structure TargetSteps (c : Content) (r : TargetRelation) : Prop where
  relationships : r.relationships = (c.elementsNamed "relationship").map textOf
  entities : (c.elementsNamed "entity").mapM readEntity = .ok r.entities
  fits : r.relationships.length = r.entities.length + 1
  alternates : Alternates "relationship" "entity" (stepNames c) ↔ (stepNames c).IsChain (· ≠ ·)
  determined : Alternates "relationship" "entity" (stepNames c) ↔
    pathSteps c = alternate (c.elementsNamed "relationship") (c.elementsNamed "entity")

theorem sourceSteps_of_read {c : Content} {r : SourceRelation} (h : readSourceRelation c = .ok r)
    (hjoin : r.isJoin = true → ∃ join, r.join = .ok join) : SourceSteps c r := by
  obtain ⟨hall, rfl, hne⟩ := readSourceRelation_eq_ok_iff.1 h
  have hall (e : Content) (he : e ∈ c.elements) :
      e.localName = "relation" ∨ e.localName = "node" ∨ e.localName = "if" :=
    (hall e he).imp_right .inl
  refine ⟨rfl, rfl, fun hjoined => ?_, ?_, ?_, SourceRelation.interleave_eq_iff hne⟩
  · obtain ⟨join, hjoin⟩ := hjoin hjoined
    exact SourceRelation.length_of_join hjoin
  · rw [List.length_map, List.length_map]
    exact alternates_stepNames_iff (by decide) (by decide) (by decide) hall
  · rw [List.length_map, List.length_map]
    exact alternates_stepNames_iff_eq (by decide) (by decide) (by decide)

theorem targetSteps_of_read {c : Content} {r : TargetRelation} (h : readTargetRelation c = .ok r)
    (hfits : r.isMerge = false → r.relationships.length = r.entities.length + 1) : TargetSteps c r := by
  obtain ⟨hall, -, hrelationships, hentities, -⟩ := readTargetRelation_eq_ok_iff.1 h
  have hlength : r.relationships.length = r.entities.length + 1 := by
    cases hmerge : r.isMerge with
    | false => exact hfits hmerge
    | true => exact TargetRelation.length_of_isMerge hmerge
  have hnumbers : (c.elementsNamed "relationship").length = (c.elementsNamed "entity").length + 1 := by
    rw [(mapM_eq_ok_iff.1 hentities).length_eq, ← hlength, hrelationships, List.length_map]
  refine ⟨hrelationships, hentities, hlength, ?_, ?_⟩
  · rw [alternates_stepNames_iff (by decide) (by decide) (by decide) hall, and_iff_left hnumbers]
  · rw [alternates_stepNames_iff_eq (by decide) (by decide) (by decide), and_iff_left hnumbers]

theorem readLink_ok {l : Content} {link : Link} (h : readLink l = .ok link) : ∃ source target,
    pathPart l "source_relation" = .ok source ∧ readSourceRelation source = .ok link.source ∧
      pathPart l "target_relation" = .ok target ∧ readTargetRelation target = .ok link.target ∧
        link.skip = flag l "skip" := by
  simp only [readLink, bind_eq_ok] at h
  obtain ⟨path, hpath, range, -, source, hsource, r, hr, target, htarget, r', hr', node, -, ends, -, t, -, h⟩ := h
  cases h
  exact ⟨source, target, bind_eq_ok.2 ⟨path, hpath, hsource⟩, hr, bind_eq_ok.2 ⟨path, hpath, htarget⟩, hr', rfl⟩

/-- A link that is followed stands in the mapping among those that are. -/
theorem exists_link_of_followed {root l : Content} {d : MappingDocument} (h : readMappings root = .ok d)
    (hl : l ∈ followedLinks root) : ∃ link ∈ d.links, readLink l = .ok link := by
  obtain ⟨m, hm, hl⟩ := List.mem_flatMap.1 hl
  obtain ⟨hm, hkept⟩ := List.mem_filter.1 hm
  obtain ⟨hl, hfollowed⟩ := List.mem_filter.1 hl
  rw [readMappings] at h
  split at h
  next => cases h
  next =>
    simp only [bind_eq_ok] at h
    obtain ⟨declared, -, mappings, hmappings, h⟩ := h
    cases h
    obtain ⟨mapping, hmapping, hread⟩ := exists_of_mem_mapM hmappings hm
    simp only [readMapping, bind_eq_ok] at hread
    obtain ⟨domainNode, -, domain, -, links, hlinks, hread⟩ := hread
    cases hread
    obtain ⟨link, hlink, hread⟩ := exists_of_mem_mapM hlinks hl
    obtain ⟨-, -, -, -, -, -, hskip⟩ := readLink_ok hread
    refine ⟨link, MappingDocument.mem_links.2 ⟨_, hmapping, ?_, hlink, ?_⟩, hread⟩
    · simpa using hkept
    · rw [hskip]
      simpa using hfollowed

theorem readText_eq_ok_iff {α : Type} {kind : String} {read : Content → Except LayoutFault α} {text : String}
    {a : α} : readText kind read text = .ok a ↔
      ∃ d root, Xml.Document.read? text = some d ∧ d.rootElement? = some root ∧ read root = .ok a := by
  rw [readText]
  cases hroot : (Xml.Document.read? text).bind (·.rootElement?) with
  | none =>
    refine iff_of_false (by simp) ?_
    rintro ⟨d, root, hd, hroot', -⟩
    simp [hd, hroot'] at hroot
  | some root =>
    obtain ⟨d, hd, hroot⟩ := Option.bind_eq_some_iff.1 hroot
    dsimp only
    rw [mapError_eq_ok]
    constructor
    · exact fun h => ⟨d, root, hd, hroot, h⟩
    · rintro ⟨d', root', hd', hroot', h⟩
      cases hd.symm.trans hd'
      cases hroot.symm.trans hroot'
      exact h

/-- Of a mapping that is read and accepted the number of relationships and entities is known on every path that
is followed, and that their elements stand in turn just if no two neighbours are of one kind. Relations and
nodes stand in turn just if there is one relation more as well, as there is in a join. -/
theorem alternates_iff_of_valid {engine : Engine} {text : String}
    (hread : MappingDocument.read text = .ok engine.mapping) (hvalid : engine.validate = .ok ()) :
    ∃ d root, Xml.Document.read? text = some d ∧ d.rootElement? = some root ∧ ∀ l ∈ followedLinks root,
      ∃ link ∈ engine.mapping.links, ∃ source target, readLink l = .ok link ∧
        pathPart l "source_relation" = .ok source ∧ pathPart l "target_relation" = .ok target ∧
          SourceSteps source link.source ∧ TargetSteps target link.target := by
  obtain ⟨d, root, hd, hroot, hmappings⟩ := readText_eq_ok_iff.1 hread
  refine ⟨d, root, hd, hroot, fun l hl => ?_⟩
  obtain ⟨link, hmem, hlink⟩ := exists_link_of_followed hmappings hl
  obtain ⟨source, target, hsource, hreadSource, htarget, hreadTarget, -⟩ := readLink_ok hlink
  have haccepts := (Engine.validate_iff.1 hvalid).links link hmem
  exact ⟨link, hmem, source, target, hlink, hsource, htarget, sourceSteps_of_read hreadSource haccepts.join,
    targetSteps_of_read hreadTarget haccepts.fits⟩

/-- Whether a text is read and accepted, with elements of these names on the path of a link that is followed. -/
def acceptsSteps (text : String) (sourceNames targetNames : List String) : Bool :=
  (Xml.Document.read? text).any fun d => d.rootElement?.any fun root =>
    ((readMappings root).toOption.any fun m => (Engine.validate ⟨m, .empty, none, default⟩).toOption.isSome) &&
      (followedLinks root).any fun l =>
        (pathPart l "source_relation").toOption.any (stepNames · == sourceNames) &&
          (pathPart l "target_relation").toOption.any (stepNames · == targetNames)

theorem exists_of_acceptsSteps {text : String} {sourceNames targetNames : List String}
    (h : acceptsSteps text sourceNames targetNames = true) :
    ∃ (engine : Engine) (d : Xml.Document) (root : Content), MappingDocument.read text = .ok engine.mapping ∧
      engine.validate = .ok () ∧ Xml.Document.read? text = some d ∧ d.rootElement? = some root ∧
        ∃ l ∈ followedLinks root, ∃ source target, pathPart l "source_relation" = .ok source ∧
          pathPart l "target_relation" = .ok target ∧ stepNames source = sourceNames ∧
            stepNames target = targetNames := by
  simp only [acceptsSteps, Option.any_eq_true, Bool.and_eq_true, List.any_eq_true, beq_iff_eq] at h
  obtain ⟨d, hd, root, hroot, ⟨m, hm, hvalid⟩, l, hl, ⟨source, hsource, hsourceNames⟩, target, htarget,
    htargetNames⟩ := h
  obtain ⟨⟨⟩, hvalid⟩ := Option.isSome_iff_exists.1 hvalid
  exact ⟨⟨m, .empty, none, default⟩, d, root, readText_eq_ok_iff.2 ⟨d, root, hd, hroot, eq_ok_of_toOption hm⟩,
    eq_ok_of_toOption hvalid, hd, hroot, l, hl, source, target, eq_ok_of_toOption hsource, eq_ok_of_toOption htarget,
    hsourceNames, htargetNames⟩

def entityTexts (type : String) : List String :=
  ["<entity variable=\"v\"><type>", type, "</type></entity>"]

/-- A mapping with one link, the two relations of which are written in their own way. -/
def pathText (source target : List String) : String :=
  String.join (["<x3ml><mappings><mapping><domain>", "<source_node>/a</source_node>", "<target_node>"] ++
    entityTexts "urn:A" ++ ["</target_node></domain><link><path>", "<source_relation>"] ++ source ++
    ["</source_relation><target_relation>"] ++ target ++ ["</target_relation></path><range>",
      "<source_node>c</source_node>", "<target_node>"] ++ entityTexts "urn:C" ++
    ["</target_node></range></link>", "</mapping></mappings></x3ml>"])

def orderedText : String :=
  pathText ["<relation>b</relation>", "<node>n</node>", "<relation>c</relation>"]
    (["<relationship>urn:p</relationship>"] ++ entityTexts "urn:B" ++ ["<relationship>urn:q</relationship>"])

/-- The node stands in front of the relation, and the entity behind the relationships. -/
def swappedText : String :=
  pathText ["<node>n</node>", "<relation>c</relation>"]
    (["<relationship>urn:p</relationship>", "<relationship>urn:q</relationship>"] ++ entityTexts "urn:B")

theorem acceptsSteps_ordered : acceptsSteps orderedText ["relation", "node", "relation"]
    ["relationship", "entity", "relationship"] = true := by
  rw [acceptsSteps, Xml.Document.read?, orderedText, pathText, String.toList_join]
  decide +kernel

theorem acceptsSteps_swapped : acceptsSteps swappedText ["node", "relation"]
    ["relationship", "relationship", "entity"] = true := by
  rw [acceptsSteps, Xml.Document.read?, swappedText, pathText, String.toList_join]
  decide +kernel

theorem alternates_iff_of_valid_ordered : ∃ (engine : Engine) (d : Xml.Document) (root : Content),
    MappingDocument.read orderedText = .ok engine.mapping ∧ engine.validate = .ok () ∧
      Xml.Document.read? orderedText = some d ∧ d.rootElement? = some root ∧
        ∃ l ∈ followedLinks root, ∃ link ∈ engine.mapping.links, ∃ source target, readLink l = .ok link ∧
          SourceSteps source link.source ∧ TargetSteps target link.target ∧
            Alternates "relation" "node" (stepNames source) ∧
              Alternates "relationship" "entity" (stepNames target) := by
  obtain ⟨engine, d, root, hread, hvalid, hd, hroot, l, hl, source, target, hsource, htarget, hsourceNames,
    htargetNames⟩ := exists_of_acceptsSteps acceptsSteps_ordered
  obtain ⟨d', root', hd', hroot', hlinks⟩ := alternates_iff_of_valid hread hvalid
  cases hd.symm.trans hd'
  cases hroot.symm.trans hroot'
  obtain ⟨link, hlink, source', target', hreadLink, hsource', htarget', hsourceSteps, htargetSteps⟩ := hlinks l hl
  cases hsource.symm.trans hsource'
  cases htarget.symm.trans htarget'
  refine ⟨engine, d, root, hread, hvalid, hd, hroot, l, hl, link, hlink, source, target, hreadLink, hsourceSteps,
    htargetSteps, ?_, ?_⟩
  · rw [hsourceNames]
    exact .step .single
  · rw [htargetSteps.alternates, htargetNames]
    decide

/-- A text is accepted whose elements stand in no such order: neither those of the target nor those of the source,
of which the expression passes over a node. -/
theorem accepted_out_of_turn : ∃ (engine : Engine) (d : Xml.Document) (root : Content),
    MappingDocument.read swappedText = .ok engine.mapping ∧ engine.validate = .ok () ∧
      Xml.Document.read? swappedText = some d ∧ d.rootElement? = some root ∧
        ∃ l ∈ followedLinks root, ∃ link ∈ engine.mapping.links, ∃ source target, readLink l = .ok link ∧
          pathPart l "source_relation" = .ok source ∧ pathPart l "target_relation" = .ok target ∧
            ¬Alternates "relationship" "entity" (stepNames target) ∧
              ¬Alternates "relation" "node" (stepNames source) ∧
                SourceRelation.interleave link.source.relations link.source.nodes ≠
                  alternate link.source.relations link.source.nodes := by
  obtain ⟨engine, d, root, hread, hvalid, hd, hroot, l, hl, source, target, hsource, htarget, hsourceNames,
    htargetNames⟩ := exists_of_acceptsSteps acceptsSteps_swapped
  obtain ⟨_, _, hd', hroot', hmappings⟩ := readText_eq_ok_iff.1 hread
  cases hd.symm.trans hd'
  cases hroot.symm.trans hroot'
  obtain ⟨link, hlink, hreadLink⟩ := exists_link_of_followed hmappings hl
  obtain ⟨_, _, hsource', hreadSource, -⟩ := readLink_ok hreadLink
  cases hsource.symm.trans hsource'
  refine ⟨engine, d, root, hread, hvalid, hd, hroot, l, hl, link, hlink, source, target, hreadLink, hsource, htarget,
    fun h => ?_, fun h => ?_, ?_⟩
  · have hchain := h.isChain (by decide)
    rw [htargetNames] at hchain
    revert hchain
    decide
  · have hhead := h.head?_eq
    rw [hsourceNames] at hhead
    revert hhead
    decide
  · obtain ⟨-, hlists, hne⟩ := readSourceRelation_eq_ok_iff.1 hreadSource
    have hrelations : link.source.relations.length = 1 := by
      rw [hlists, List.length_map, ← count_stepNames (by decide), hsourceNames]
      decide
    have hnodes : link.source.nodes.length = 1 := by
      rw [hlists, List.length_map, ← count_stepNames (by decide), hsourceNames]
      decide
    rw [Ne, SourceRelation.interleave_eq_iff hne, hrelations, hnodes]
    decide

end Layout

end Crosswalk
