import Crosswalk.Proofs.JoinNames
import Crosswalk.Proofs.Openings
import Crosswalk.Proofs.TypedResources

/-!
# Joins in the course of a run

The indexes of joins are kept for the whole run, under names that are put together from the texts of a
mapping. A join finds the nodes of scans as long as all questions that go by one name have the same answers.
This need not be so: the parts of a name are separated by slashes and other characters that the parts
may contain themselves, and then a later question is answered with the nodes of the first one.
-/

namespace Crosswalk.Run

open Crosswalk.Xml (Location)

variable {s t u : RunState}

/-- What links can be followed in a run, and from where: their mappings and they themselves are not
skipped, and a domain node is a node of the document. -/
def Part.OccursIn (engine : Engine) (document : Xml.Document) : Part → Prop
  | mapping scene _ m =>
    scene = engine.scene document ∧ m ∈ engine.mapping.mappings ∧ m.skip = false
  | domain scene _ m _ node _ =>
    scene = engine.scene document ∧ (m ∈ engine.mapping.mappings ∧ m.skip = false) ∧
      document.HasNode node
  | link scene _ m node _ _ l =>
    scene = engine.scene document ∧ (m ∈ engine.mapping.mappings ∧ m.skip = false) ∧
      document.HasNode node ∧ l ∈ m.links ∧ l.skip = false
  | path .. => True
  | range .. => True

theorem Part.OccursIn.opens {engine : Engine} {document : Xml.Document} {p q : Part}
    (h : p.OccursIn engine document) (hq : p.Opens q) : q.OccursIn engine document := by
  cases hq with
  | domain scene number m mappingGraph? nodes node position hnodes hnode =>
    obtain ⟨rfl, hm⟩ := h
    have hroot := document.hasNode_ofPath_nil
    exact ⟨rfl, hm, Source.hasNode_select hroot hnodes node hnode⟩
  | link scene place m mappingGraph? node position k id domainGraph? l hl hskip =>
    obtain ⟨hscene, hm, hnode⟩ := h
    exact ⟨hscene, hm, hnode, hl, hskip⟩
  | path => trivial
  | range => trivial

theorem Part.occursIn_of_enters {engine : Engine} {seed : List UInt8} {document : Xml.Document}
    {p : Part} (h : engine.Enters seed document p s) : p.OccursIn engine document := by
  refine Entered.property (fun p q hp hq => hp.opens hq) h fun q hq => ?_
  obtain ⟨_, m, hm, hskip, rfl⟩ := Part.mem_mappings hq
  exact ⟨rfl, List.mem_of_getElem? hm, hskip⟩

theorem openFollowed_grows {l : LinkSetting} {node : Location} {Q : JoinQuestion → Prop}
    (hjoin : l.link.source.isJoin = true)
    (h : ∀ join, l.link.source.join = .ok join → ∀ q ∈ l.questions join node, Q q) :
    Moves (JoinsGrow l.scene.source Q) (openFollowed l node) := by
  intro s
  rw [openFollowed, if_pos hjoin]
  refine rel_bind (Moves.ofSetup _ _) fun join t ht => ?_
  obtain ⟨hparsed, rfl⟩ := ofSetup_ok.1 ht
  exact rel_bind (joinRanges_grows (h join hparsed) s) fun _ _ _ => refl _

/-- The opening of a link that joins builds indexes for what the join asks, and for nothing else. -/
theorem openLink_grows {l : LinkSetting} {node : Location} {Q : JoinQuestion → Prop}
    (hmerge : l.link.target.isMerge = false) (hjoin : l.link.source.isJoin = true)
    (hnode : (s.contexts.get l.domain).node = node)
    (h : ∀ join, l.link.source.join = .ok join → ∀ q ∈ l.questions join node, Q q) :
    JoinsGrow l.scene.source Q s
      (after (openLink l.scene l.place l.mapping l.domain l.domainGraph? l.link) s) := by
  subst hnode
  have hcounted : JoinsGrow l.scene.source Q s
      (after (count fun c => { c with linksAttempted := c.linksAttempted + 1 }) s) := .refl ..
  refine rel_bind hcounted fun _ t₁ h₁ => ?_
  cases h₁
  refine rel_bind (namedGraph_moves ..) fun g t₂ h₂ => ?_
  have hsame := after_eq h₂
  rw [after_namedGraph] at hsame
  subst hsame
  refine rel_bind (Moves.of_after_eq (fun _ => rfl) _) fun c t₃ h₃ => ?_
  cases h₃
  rw [if_neg (by simpa using hmerge)]
  exact openFollowed_grows (l := { l with linkGraph? := g }) hjoin h _

theorem allows_joinsGrow (src : Source) (Q : JoinQuestion → Prop) : Allows (JoinsGrow src Q) where
  reads {s t} h := by
    rw [JoinsGrow, h.joins_eq]
    exact .refl src Q s.joins
  counted s _ := .refl src Q s.joins
  written s _ _ := .refl src Q s.joins

theorem joins_recover (p : Part) (cause : DropCause) (s : RunState) :
    (after (p.recover cause) s).joins = s.joins := by
  cases p <;> rfl

end Crosswalk.Run

namespace Crosswalk.Engine

open Crosswalk.Run
open Crosswalk.Xml (Location)

/-- In the course of a run, a link that joins is followed from a domain node. -/
structure Follows (engine : Engine) (seed : List UInt8) (document : Xml.Document) (l : LinkSetting)
    (join : Join) (node : Location) (s : RunState) : Prop where
  entered : engine.Enters seed document
    (.link l.scene l.place l.mapping node l.domain l.domainGraph? l.link) s
  isMerge_eq : l.link.target.isMerge = false
  isJoin_eq : l.link.source.isJoin = true
  join_eq : l.link.source.join = .ok join

/-- A question that some join of a run asks. -/
def Asks (engine : Engine) (seed : List UInt8) (document : Xml.Document) (q : JoinQuestion) : Prop :=
  ∃ l join node s, engine.Follows seed document l join node s ∧ q ∈ l.questions join node

variable {engine : Engine} {seed : List UInt8} {document : Xml.Document} {p : Part} {s : RunState}

theorem opening_grows (h : engine.Enters seed document p s) :
    JoinsGrow (engine.source document) (engine.Asks seed document) s (after p.opening s) := by
  by_cases hjoins : p.Joins
  · cases p with
    | link scene place m node id domainGraph? l =>
      let setting : LinkSetting := ⟨scene, place, m, l, id, domainGraph?, none⟩
      obtain ⟨rfl, -⟩ := Part.occursIn_of_enters h
      have hnode := (typedEntry_of_enters h).2.2
      refine openLink_grows (l := setting) hjoins.1 hjoins.2 hnode fun join hparsed q hq => ?_
      exact ⟨setting, join, node, s, ⟨h, hjoins.1, hjoins.2, hparsed⟩, hq⟩
    | _ => exact hjoins.elim
  · exact (opening_allOrNothing (allows_joinsGrow _ _) (fun h => absurd h hjoins) s).moves

/-- Every index that is there when a part is entered was built for a question of the run. -/
theorem builtFor_of_enters (h : engine.Enters seed document p s) :
    (engine.source document).BuiltFor (engine.Asks seed document) s.joins := by
  intro name index hindex
  obtain ⟨q, u, hq, hu, hopened | ⟨cause, v, -, hv, hrecovered⟩⟩ :=
    begins_of_entered (P := fun s => s.joins.indexes.get? name = some index) h
      (by simp [start, RunState.initial, JoinCache.empty]) hindex
  · exact ((opening_grows hq).built name index hopened).resolve_left hu
  · rw [joins_recover] at hrecovered
    exact absurd hrecovered hv

variable {l : LinkSetting} {join : Join} {node : Location}

/-- Whether a part that is entered follows a link that joins, in a way that satisfies a test. -/
def followsJoin (test : LinkSetting → Join → Location → RunState → Bool) : Part × RunState → Bool
  | (.link scene place m node id domainGraph? link, s) =>
    match link.source.join with
    | .ok join =>
      !link.target.isMerge && link.source.isJoin &&
        test ⟨scene, place, m, link, id, domainGraph?, none⟩ join node s
    | .error _ => false
  | _ => false

theorem exists_follows_of_visits {n : Nat} {test : LinkSetting → Join → Location → RunState → Bool}
    (h : (visits n (engine.parts document) (engine.start seed)).any (followsJoin test) = true) :
    ∃ l join node s, engine.Follows seed document l join node s ∧ test l join node s = true := by
  obtain ⟨⟨p, s⟩, hmem, hfollows⟩ := List.any_eq_true.1 h
  cases p with
  | link scene place m node id domainGraph? link =>
    rw [followsJoin] at hfollows
    split at hfollows
    next join hjoin =>
      simp only [Bool.and_eq_true, Bool.not_eq_true'] at hfollows
      obtain ⟨⟨hmerge, hisJoin⟩, htest⟩ := hfollows
      exact ⟨_, join, node, s, ⟨entered_of_mem_visits hmem, hmerge, hisJoin, hjoin⟩, htest⟩
    next => cases hfollows
  | _ => cases hfollows

theorem mapError_setup_injective {x y : Except SetupError (List Location)}
    (h : x.mapError Fault.setup = y.mapError Fault.setup) : x = y := by
  cases x <;> cases y <;> simp_all [Except.mapError, Fault.setup]

theorem Follows.scene_eq (h : engine.Follows seed document l join node s) :
    l.scene = engine.scene document :=
  (Part.occursIn_of_enters h.entered).1

theorem exists_leg_of_asks {q : JoinQuestion} (h : engine.Asks seed document q) :
    ∃ leg ∈ engine.mapping.joinLegs, q.IsFor (engine.source document) leg := by
  obtain ⟨l, join, node, s, h, hq⟩ := h
  obtain ⟨leg, hleg, rfl⟩ := List.mem_map.1 hq
  obtain ⟨hscene, ⟨hm, hskip⟩, hnode, hl, hlskip⟩ := Part.occursIn_of_enters h.entered
  refine ⟨⟨l.mapping.domain.sourceNode, l.link.source.expression, leg.1, leg.2⟩, ?_, ?_⟩
  · refine List.mem_flatMap.2 ⟨l.mapping, List.mem_filter.2 ⟨hm, by simp [hskip]⟩, ?_⟩
    refine List.mem_flatMap.2 ⟨l.link, List.mem_filter.2 ⟨hl, by simp [hlskip]⟩, ?_⟩
    rw [Link.joinLegs, h.isMerge_eq, h.isJoin_eq, h.join_eq]
    exact List.mem_map_of_mem hleg
  · have hsource : l.scene.source = engine.source document := congrArg Scene.source hscene
    rw [← hsource]
    exact LinkSetting.isFor_question (hsource ▸ hnode) leg.1 leg.2

/-- Where the mapping and the document tell their names apart, no two questions of a run share a name. -/
theorem eq_of_asks {q q' : JoinQuestion} (legs : engine.mapping.LegsApart)
    (valid : document.namesValid = true) (names : document.NamesApart)
    (h : engine.Asks seed document q) (h' : engine.Asks seed document q')
    (hname : q.name = q'.name) : q = q' := by
  obtain ⟨leg, hleg, hq⟩ := exists_leg_of_asks h
  obtain ⟨leg', hleg', hq'⟩ := exists_leg_of_asks h'
  exact hq.eq_of_name_eq valid names hq' (legs leg hleg leg' hleg') (legs leg' hleg' leg hleg) hname

/-- A join finds what scans find for the first questions of the run with the names of its own ones. These
are the nodes of the scans for its own questions just if the first questions have the same answers,
and so they are if all questions of the run that go by one name have the same answers, which they
do wherever the mapping and the document tell their names apart. -/
theorem joinRanges_eq_scan_iff (h : engine.Follows seed document l join node s) :
    (∀ q value found, l.scene.source.scan q value = .ok found →
      Xml.Location.Ordered found ∧ ∃ nodes, l.scene.source.select q.base q.expression = .ok nodes ∧
        ∀ r, r ∈ found ↔ r ∈ nodes ∧ l.scene.source.joinKey q.key r = .ok value) ∧
    (∃ first, FirstFor (engine.Asks seed document) l join node s.joins first ∧
      (outcome (joinRanges l join node) s).1 =
        (l.rangesBy (fun q => l.scene.source.scan (first q)) join node).mapError Fault.setup ∧
      ((outcome (joinRanges l join node) s).1 =
          (l.rangesBy l.scene.source.scan join node).mapError Fault.setup ↔
        l.rangesBy (fun q => l.scene.source.scan (first q)) join node =
          l.rangesBy l.scene.source.scan join node)) ∧
    ((∀ q ∈ l.questions join node, ∀ p, engine.Asks seed document p → p.name = q.name →
        l.scene.source.scan p = l.scene.source.scan q) →
      (outcome (joinRanges l join node) s).1 =
        (l.rangesBy l.scene.source.scan join node).mapError Fault.setup) ∧
    (engine.mapping.LegsApart → document.namesValid = true → document.NamesApart →
      (outcome (joinRanges l join node) s).1 =
        (l.rangesBy l.scene.source.scan join node).mapError Fault.setup) := by
  have hbuilt : l.scene.source.BuiltFor (engine.Asks seed document) s.joins := by
    rw [h.scene_eq]
    exact builtFor_of_enters h.entered
  have hasked : ∀ q ∈ l.questions join node, engine.Asks seed document q :=
    fun q hq => ⟨l, join, node, s, h, hq⟩
  obtain ⟨first, hfirst, houtcome⟩ := exists_outcome_joinRanges_eq hbuilt hasked
  have hsame (heq : ∀ q ∈ l.questions join node, ∀ p, engine.Asks seed document p →
      p.name = q.name → l.scene.source.scan p = l.scene.source.scan q) :
      (outcome (joinRanges l join node) s).1 =
        (l.rangesBy l.scene.source.scan join node).mapError Fault.setup := by
    rw [houtcome, rangesBy_congr fun q hq => ?_]
    obtain ⟨hname, hfirst, -⟩ := hfirst q hq
    exact heq q hq (first q) hfirst hname
  refine ⟨fun q value found => Source.scan_spec, ⟨first, hfirst, houtcome, ?_⟩, hsame, ?_⟩
  · rw [houtcome]
    exact ⟨mapError_setup_injective, congrArg _⟩
  · intro legs valid names
    refine hsame fun q hq p hp hname => ?_
    rw [eq_of_asks legs valid names hp (hasked q hq) hname]

/-- A mapping that links orders to their customers, twice. -/
def shopEngine : Engine :=
  let thing : Entity := ⟨["<urn:Thing>"], some ⟨"UUID", []⟩, [], [], none, none⟩
  let link (property : String) : Link :=
    ⟨⟨["customer==id"], []⟩, ⟨none, [property], []⟩, ⟨"customer", ⟨thing, none⟩⟩, none, false⟩
  ⟨⟨.builtin, [⟨⟨"/shop/order", ⟨thing, none⟩, none⟩, [link "<urn:for>", link "<urn:from>"], none,
    false⟩]⟩, .empty, none, { Settings.default with uuidWidth? := some 2 }⟩

def shopWithOrder : Xml.Document :=
  let element (name : String) (content : List Xml.Content) : Xml.Content :=
    .element ⟨none, name⟩ [] [] content
  ⟨[element "shop" [element "order" [element "customer" [.text "7"]],
    element "customer" [element "id" [.text "7"]]]]⟩

/-- The second link finds the customer in the index that the first one has left. -/
theorem joinRanges_eq_scan_iff_customer :
    shopEngine.mapping.LegsApart ∧ shopWithOrder.namesValid = true ∧ shopWithOrder.NamesApart ∧
      ∃ l join node s first, shopEngine.Follows [] shopWithOrder l join node s ∧
        s.joins.builds = 1 ∧ FirstFor (shopEngine.Asks [] shopWithOrder) l join node s.joins first ∧
        l.rangesBy (fun q => l.scene.source.scan (first q)) join node = .ok [⟨[0, 1], none⟩] ∧
        (outcome (joinRanges l join node) s).1 = .ok [⟨[0, 1], none⟩] := by
  have hvisit : (visits 8 (shopEngine.parts shopWithOrder) (shopEngine.start [])).any
      (followsJoin fun l join node s => s.joins.builds == 1 &&
        (l.rangesBy l.scene.source.scan join node).toOption == some [⟨[0, 1], none⟩]) = true := by
    decide +kernel
  have legs : shopEngine.mapping.LegsApart :=
    MappingDocument.legsApart_of_all (by decide +kernel)
  have valid : shopWithOrder.namesValid = true := by decide +kernel
  have names : shopWithOrder.NamesApart :=
    Xml.Document.namesApart_of_plain (by decide +kernel)
  obtain ⟨l, join, node, s, hfollows, htest⟩ := exists_follows_of_visits hvisit
  simp only [Bool.and_eq_true, beq_iff_eq] at htest
  have hscan := eq_ok_of_toOption htest.2
  obtain ⟨-, ⟨first, hfirst, -, hiff⟩, -, hapart⟩ := joinRanges_eq_scan_iff hfollows
  have hfound := hapart legs valid names
  refine ⟨legs, valid, names, l, join, node, s, first, hfollows, htest.1, hfirst, ?_, ?_⟩
  · exact (hiff.1 hfound).trans hscan
  · rw [hfound, hscan]
    rfl

/-- A mapping with two links that join with the nodes `x` in between. The texts of the first one put
together are those of the second one, though they are divided differently. -/
def sharedNameEngine : Engine :=
  let thing : Entity := ⟨["<urn:T>"], some ⟨"UUID", []⟩, [], [], none, none⟩
  let link (key range : String) : Link :=
    ⟨⟨["k==k", "c==" ++ key], ["x"]⟩, ⟨none, ["<urn:p>"], []⟩, ⟨range, ⟨thing, none⟩⟩, none, false⟩
  ⟨⟨.builtin, [⟨⟨"/r/d", ⟨thing, none⟩, none⟩, [link "k/n" "y", link "k" "n/x"], none, false⟩]⟩,
    .empty, none, { Settings.default with uuidWidth? := some 2 }⟩

def sharedNameDocument : Xml.Document :=
  let element (name : String) (content : List Xml.Content) : Xml.Content :=
    .element ⟨none, name⟩ [] [] content
  ⟨[element "r" [element "d" [element "k" [.text "1"]],
    element "x" [element "k" [.text "1"], element "c" [.text "1"]],
    element "n" [element "x" [element "k" [.text "1"]]]]]⟩

/-- The second link asks for `n/x` and is given the `x` that the first one went through. -/
theorem joinRanges_ne_scan_of_shared_name :
    ∃ l join node s, sharedNameEngine.Follows [] sharedNameDocument l join node s ∧
      (outcome (joinRanges l join node) s).1 = .ok [⟨[0, 1], none⟩] ∧
      l.rangesBy l.scene.source.scan join node = .ok [⟨[0, 2, 0], none⟩] := by
  have hvisit : (visits 8 (sharedNameEngine.parts sharedNameDocument) (sharedNameEngine.start [])).any
      (followsJoin fun l join node s =>
        (outcome (joinRanges l join node) s).1.toOption == some [⟨[0, 1], none⟩] &&
        (l.rangesBy l.scene.source.scan join node).toOption == some [⟨[0, 2, 0], none⟩]) = true := by
    decide +kernel
  obtain ⟨l, join, node, s, hfollows, htest⟩ := exists_follows_of_visits hvisit
  simp only [Bool.and_eq_true, beq_iff_eq] at htest
  exact ⟨l, join, node, s, hfollows, eq_ok_of_toOption htest.1, eq_ok_of_toOption htest.2⟩

end Crosswalk.Engine
