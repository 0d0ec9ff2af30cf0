import Crosswalk.Proofs.Reading

/-!
# The parts of a run

A run consists of parts inside of parts: mappings, their domain nodes, the links that are followed
from these, the path nodes of a link and the range nodes of a path. Every part first does
something of its own, which is its opening, and then runs the parts that it has opened, each of which
is guarded so that its failure stays its own. `Part.run_eq` says that this is how a run goes, and
`Part.Opens` which parts can be inside of which.
-/

namespace Crosswalk.Run

open Crosswalk.Xml (Location)

/-- A part of a run. -/
inductive Part where
  | mapping (scene : Scene) (number : Nat) (mapping : Mapping)
  | domain (scene : Scene) (place : Place) (mapping : Mapping) (mappingGraph? : Option String)
    (node : Location) (position : Nat)
  | link (scene : Scene) (place : Place) (mapping : Mapping) (node : Location) (domain : Nat)
    (domainGraph? : Option String) (link : Link)
  | path (l : LinkSetting) (joined : Bool) (node : Location) (position : Nat)
  | range (l : LinkSetting) (path : Nat) (intermediates : List Nat) (node : Location)
    (position : Nat)

namespace Part

/-! ## Lists of parts -/

/-- The parts that some items give, where each item counts, also one that gives none. -/
def numbered {α : Type} (f : Nat → α → Option Part) : Nat → List α → List Part
  | _, [] => []
  | k, a :: rest =>
    match f k a with
    | some p => p :: numbered f (k + 1) rest
    | none => numbered f (k + 1) rest

/-- A member of a numbered list is of the item at its place. -/
theorem getElem?_of_mem_numbered {α : Type} {f : Nat → α → Option Part} {k : Nat} {as : List α}
    {p : Part} (h : p ∈ numbered f k as) : ∃ i b, as[i]? = some b ∧ f (k + i) b = some p := by
  induction as generalizing k with
  | nil => cases h
  | cons a rest ih =>
    have later (h : p ∈ numbered f (k + 1) rest) :
        ∃ i b, (a :: rest)[i]? = some b ∧ f (k + i) b = some p := by
      obtain ⟨i, b, hb, hp⟩ := ih h
      refine ⟨i + 1, b, hb, ?_⟩
      rwa [Nat.add_right_comm, Nat.add_assoc] at hp
    rw [numbered] at h
    split at h
    next q hq =>
      rcases List.mem_cons.1 h with rfl | h
      · exact ⟨0, a, rfl, hq⟩
      · exact later h
    next => exact later h

/-- The mappings that are not skipped, of which the first has the number `k`. -/
def mappings (scene : Scene) : Nat → List Mapping → List Part :=
  numbered fun k m => if m.skip then none else some (mapping scene k m)

def domains (scene : Scene) (place : Place) (m : Mapping) (mappingGraph? : Option String) :
    Nat → List Location → List Part :=
  numbered fun position node => some (domain scene place m mappingGraph? node position)

/-- The links of a domain node that are not skipped, of which the first has the number `k`. -/
def links (scene : Scene) (place : Place) (m : Mapping) (node : Location) (domain : Nat)
    (domainGraph? : Option String) : Nat → List Link → List Part :=
  numbered fun k l =>
    if l.skip then none
    else some (link scene { place with link? := some k } m node domain domainGraph? l)

def paths (l : LinkSetting) (joined : Bool) : Nat → List Location → List Part :=
  numbered fun position node => some (path l joined node position)

def ranges (l : LinkSetting) (path : Nat) (intermediates : List Nat) :
    Nat → List Location → List Part :=
  numbered fun position node => some (range l path intermediates node position)

section

variable {scene : Scene} {place : Place} {m : Mapping} {graph? : Option String} {l : LinkSetting}
  {node : Location} {nodes : List Location} {id k : Nat} {ids : List Nat} {joined : Bool} {p : Part}

theorem mem_mappings {ms : List Mapping} (h : p ∈ mappings scene k ms) :
    ∃ i m, ms[i]? = some m ∧ m.skip = false ∧ p = mapping scene (k + i) m := by
  obtain ⟨i, m, hm, hp⟩ := getElem?_of_mem_numbered h
  split at hp
  · cases hp
  next hskip => exact ⟨i, m, hm, by simpa using hskip, (Option.some.inj hp).symm⟩

theorem mem_domains (h : p ∈ domains scene place m graph? k nodes) :
    ∃ i node, nodes[i]? = some node ∧ p = domain scene place m graph? node (k + i) := by
  obtain ⟨i, node, hnode, hp⟩ := getElem?_of_mem_numbered h
  exact ⟨i, node, hnode, (Option.some.inj hp).symm⟩

theorem mem_links {ls : List Link} (h : p ∈ links scene place m node id graph? k ls) :
    ∃ i l, ls[i]? = some l ∧ l.skip = false ∧
      p = link scene { place with link? := some (k + i) } m node id graph? l := by
  obtain ⟨i, l, hl, hp⟩ := getElem?_of_mem_numbered h
  split at hp
  · cases hp
  next hskip => exact ⟨i, l, hl, by simpa using hskip, (Option.some.inj hp).symm⟩

theorem mem_paths (h : p ∈ paths l joined k nodes) :
    ∃ i node, nodes[i]? = some node ∧ p = path l joined node (k + i) := by
  obtain ⟨i, node, hnode, hp⟩ := getElem?_of_mem_numbered h
  exact ⟨i, node, hnode, (Option.some.inj hp).symm⟩

theorem mem_ranges (h : p ∈ ranges l id ids k nodes) :
    ∃ i node, nodes[i]? = some node ∧ p = range l id ids node (k + i) := by
  obtain ⟨i, node, hnode, hp⟩ := getElem?_of_mem_numbered h
  exact ⟨i, node, hnode, (Option.some.inj hp).symm⟩

end

/-! ## Running a part -/

/-- All that happens in a part. -/
def run : Part → Run Unit
  | mapping scene number m => runMapping scene number m
  | domain scene place m mappingGraph? node position =>
    runDomain scene place m mappingGraph? node position
  | link scene place m _ id domainGraph? l => runLink scene place m id domainGraph? l
  | path l joined node position => linkPath l joined node position
  | range l id ids node position => linkRange l id ids node position

/-- What is reported of a part that was dropped. -/
def diagnostic : Part → DropCause → Diagnostic
  | mapping scene number _ => .mk ⟨number, none⟩ (scene.source.path .root)
  | domain scene place _ _ node _ => .mk place (scene.source.path node)
  | link scene place _ node _ _ _ => .mk place (scene.source.path node)
  | path l _ node _ => .mk l.place (l.scene.source.path node)
  | range l _ _ node _ => .mk l.place (l.scene.source.path node)

/-- What is done about a part that was dropped. Mappings never are. -/
def recover : Part → DropCause → Run Unit
  | mapping .. => drop
  | domain scene place _ _ node _ => fun cause => do
    count fun c => { c with domainsFailed := c.domainsFailed + 1 }
    diagnose scene place node cause
  | link scene place _ node _ _ _ => diagnose scene place node
  | path l _ node _ => diagnose l.scene l.place node
  | range l _ _ node _ => diagnose l.scene l.place node

/-- A part whose failure stays its own. -/
def guarded (p : Part) : Run Unit :=
  tryCatch p.run fun
    | .drop cause => p.recover cause
    | .abort e => throw (.abort e)

end Part

def runAll : List Part → Run Unit
  | [] => return
  | p :: rest => do
    p.guarded
    runAll rest

theorem runAll_nil : runAll [] = pure () := rfl

theorem runAll_cons (p : Part) (rest : List Part) :
    runAll (p :: rest) = p.guarded >>= fun _ => runAll rest := rfl

/-! ## Openings -/

/-- The graph that a mapping or a link names, or else another one. -/
def namedGraph (scene : Scene) (other? : Option String) : Option String → Run (Option String)
  | some name => do
    let graph ← ofSetup (scene.namespaces.expand name)
    return some graph
  | none => return other?

def openMapping (scene : Scene) (number : Nat) (m : Mapping) : Run (List Part) := do
  let mappingGraph? ← namedGraph scene none m.graph?
  let nodes ← ofSetup (scene.source.select .root m.domain.sourceNode)
  count fun c => { c with domainsMatched := c.domainsMatched + nodes.length }
  return Part.domains scene ⟨number, none⟩ m mappingGraph? 1 nodes

def openDomain (scene : Scene) (place : Place) (m : Mapping) (mappingGraph? : Option String)
    (node : Location) (position : Nat) : Run (List Part) := do
  modify fun s => { s with contexts := .empty }
  let domain ← enter (.fresh .domain node position none)
  if ← discards scene m.domain.target.condition? node then do
    count fun c => { c with domainsFiltered := c.domainsFiltered + 1 }
    return []
  else
    let resolved ← resolve scene place m.domain.target.entity domain
    if resolved.value.isUri then do
      let graph? ← domainGraph scene m mappingGraph? node position
      Run.link domain graph?
      return Part.links scene place m node domain graph? 1 m.links
    else drop (.domainNotUri resolved.value.kind)

/-- The range nodes of a join, or the path nodes that a link leads to. -/
def openFollowed (l : LinkSetting) (domainNode : Location) : Run (List Part) :=
  if l.link.source.isJoin then do
    let join ← ofSetup l.link.source.join
    let nodes ← joinRanges l join domainNode
    return Part.paths l true 1 nodes
  else do
    let nodes ← ofSetup (l.scene.source.select domainNode l.link.source.expression)
    return Part.paths l false 1 nodes

def openLink (scene : Scene) (place : Place) (m : Mapping) (domain : Nat)
    (domainGraph? : Option String) (link : Link) : Run (List Part) := do
  count fun c => { c with linksAttempted := c.linksAttempted + 1 }
  let linkGraph? ← namedGraph scene domainGraph? link.graph?
  let l : LinkSetting := ⟨scene, place, m, link, domain, domainGraph?, linkGraph?⟩
  let c ← context domain
  if link.target.isMerge then do
    linkMerge l c.node c.position
    return []
  else openFollowed l c.node

def openPath (l : LinkSetting) (joined : Bool) (node : Location) (position : Nat) :
    Run (List Part) := do
  let path ← enter (.fresh .path node position (some l.domain))
  if ← discards l.scene l.link.target.condition? node then return []
  else
    let ids ← intermediates l path node position 0 l.link.target.entities
    if joined then return Part.ranges l path ids position [node]
    else
      let expression := rangeRemainder l.link.range.sourceNode l.link.source.expression
      let nodes ← ofSetup (l.scene.source.select node expression)
      return Part.ranges l path ids 1 nodes

/-- What a part does itself, and the parts that it leaves to be run. -/
def Part.opening : Part → Run (List Part)
  | mapping scene number m => openMapping scene number m
  | domain scene place m mappingGraph? node position =>
    openDomain scene place m mappingGraph? node position
  | link scene place m _ id domainGraph? l => openLink scene place m id domainGraph? l
  | path l joined node position => openPath l joined node position
  | range l id ids node position => do
    linkRange l id ids node position
    return []

@[simp] theorem after_namedGraph (scene : Scene) (other? name? : Option String) (s : RunState) :
    after (namedGraph scene other? name?) s = s := by
  cases name? with
  | some name =>
    rw [namedGraph, after_bind, outcome_ofSetup]
    cases scene.namespaces.expand name <;> rfl
  | none => rfl

section

variable {R : RunState → RunState → Prop} [IsPreorder RunState R]

theorem namedGraph_moves (scene : Scene) (other? name? : Option String) :
    Moves R (namedGraph scene other? name?) :=
  .of_after_eq (after_namedGraph scene other? name?)

theorem openFollowed_moves {l : LinkSetting}
    (h : l.link.source.isJoin = true → ∀ s joins, R s { s with joins := joins })
    (domainNode : Location) : Moves R (openFollowed l domainNode) := by
  rw [openFollowed]
  split
  next hjoin =>
    refine .bind (.ofSetup _) fun join => .bind ?_ fun _ => .pure _
    exact Moves.composes.joinRanges (fun _ _ => .ofSetup _) fun _ _ value =>
      joinedNodes_moves (h hjoin) l domainNode _ _ value
  · exact .bind (.ofSetup _) fun _ => .pure _

end

/-! ## A part is its opening and the parts it opened -/

theorem runDomains_eq (scene : Scene) (place : Place) (m : Mapping) (mappingGraph? : Option String)
    (position : Nat) (nodes : List Location) :
    runDomains scene place m mappingGraph? position nodes =
      runAll (Part.domains scene place m mappingGraph? position nodes) := by
  induction nodes generalizing position with
  | nil => rfl
  | cons node rest ih =>
    rw [runDomains, ih]
    rfl

theorem runLinks_eq (scene : Scene) (place : Place) (m : Mapping) (node : Location) (domain : Nat)
    (domainGraph? : Option String) (k : Nat) (ls : List Link) :
    runLinks scene place m node domain domainGraph? k ls =
      runAll (Part.links scene place m node domain domainGraph? k ls) := by
  induction ls generalizing place k with
  | nil => rfl
  | cons l rest ih =>
    rw [runLinks, Part.links, Part.numbered]
    split
    · exact ih place (k + 1)
    · dsimp only
      rw [ih]
      rfl

theorem linkPaths_eq (l : LinkSetting) (joined : Bool) (position : Nat) (nodes : List Location) :
    linkPaths l joined position nodes = runAll (Part.paths l joined position nodes) := by
  induction nodes generalizing position with
  | nil => rfl
  | cons node rest ih =>
    rw [linkPaths, ih]
    rfl

theorem linkRanges_eq (l : LinkSetting) (path : Nat) (ids : List Nat) (position : Nat)
    (nodes : List Location) :
    linkRanges l path ids position nodes = runAll (Part.ranges l path ids position nodes) := by
  induction nodes generalizing position with
  | nil => rfl
  | cons node rest ih =>
    rw [linkRanges, ih]
    rfl

theorem runMapping_eq (scene : Scene) (number : Nat) (m : Mapping) :
    runMapping scene number m = openMapping scene number m >>= runAll := by
  rw [runMapping, openMapping]
  cases m.graph? <;> simp only [namedGraph, bind_assoc, pure_bind, runDomains_eq]

theorem drop_bind {α β : Type} (cause : DropCause) (f : α → Run β) :
    drop cause >>= f = drop cause := rfl

theorem ite_bind {α β : Type} (c : Prop) [Decidable c] (m m' : Run α) (f : α → Run β) :
    (if c then m else m') >>= f = if c then m >>= f else m' >>= f := by
  split <;> rfl

theorem runDomain_eq (scene : Scene) (place : Place) (m : Mapping) (mappingGraph? : Option String)
    (node : Location) (position : Nat) :
    runDomain scene place m mappingGraph? node position =
      openDomain scene place m mappingGraph? node position >>= runAll := by
  rw [runDomain, openDomain]
  simp only [bind_assoc, ite_bind, pure_bind, drop_bind, runLinks_eq, runAll_nil, bind_pure_unit]

theorem runLink_eq (scene : Scene) (place : Place) (m : Mapping) (domain : Nat)
    (domainGraph? : Option String) (link : Link) :
    runLink scene place m domain domainGraph? link =
      openLink scene place m domain domainGraph? link >>= runAll := by
  rw [runLink, openLink]
  simp only [followLink, openFollowed, bind_assoc, ite_bind, pure_bind, linkPaths_eq, runAll_nil,
    bind_pure_unit]
  cases link.graph? <;> simp only [namedGraph, bind_assoc, pure_bind]

theorem linkPath_eq (l : LinkSetting) (joined : Bool) (node : Location) (position : Nat) :
    linkPath l joined node position = openPath l joined node position >>= runAll := by
  rw [linkPath, openPath]
  simp only [bind_assoc, ite_bind, pure_bind, linkRanges_eq, runAll_nil]

theorem Part.run_eq (p : Part) : p.run = p.opening >>= runAll := by
  cases p with
  | mapping scene number m => exact runMapping_eq scene number m
  | domain scene place m mappingGraph? node position =>
    exact runDomain_eq scene place m mappingGraph? node position
  | link scene place m node id domainGraph? l => exact runLink_eq scene place m id domainGraph? l
  | path l joined node position => exact linkPath_eq l joined node position
  | range l path ids node position =>
    simp only [run, opening, bind_assoc, pure_bind]
    exact (bind_pure _).symm

theorem guarded_mapping (scene : Scene) (k : Nat) (m : Mapping) :
    (Part.mapping scene k m).guarded = runMapping scene k m := by
  refine ext_outcome fun s => ?_
  rw [Part.guarded, outcome_tryCatch]
  rcases h : outcome (runMapping scene k m) s with ⟨e | a, t⟩
  · have h' : outcome (Part.mapping scene k m).run s = (.error e, t) := h
    rw [h']
    cases e <;> rfl
  · have h' : outcome (Part.mapping scene k m).run s = (.ok a, t) := h
    rw [h']

theorem runMappings_eq (scene : Scene) (k : Nat) (ms : List Mapping) :
    runMappings scene k ms = runAll (Part.mappings scene k ms) := by
  induction ms generalizing k with
  | nil => rfl
  | cons m rest ih =>
    rw [runMappings, Part.mappings, Part.numbered]
    cases m.skip with
    | true =>
      rw [Bool.not_true, if_neg Bool.false_ne_true, if_pos rfl]
      exact ih (k + 1)
    | false =>
      rw [Bool.not_false, if_pos rfl, if_neg Bool.false_ne_true, ih, ← guarded_mapping]
      rfl

/-! ## What is inside of what -/

/-- The parts that a part can open. -/
inductive Part.Opens : Part → Part → Prop
  | domain (scene : Scene) (number : Nat) (m : Mapping) (mappingGraph? : Option String)
      (nodes : List Location) (node : Location) (position : Nat)
      (hnodes : scene.source.select .root m.domain.sourceNode = .ok nodes) (hnode : node ∈ nodes) :
    Opens (.mapping scene number m) (.domain scene ⟨number, none⟩ m mappingGraph? node position)
  | link (scene : Scene) (place : Place) (m : Mapping) (mappingGraph? : Option String)
      (node : Location) (position k id : Nat) (domainGraph? : Option String) (l : Link)
      (hl : l ∈ m.links) (hskip : l.skip = false) :
    Opens (.domain scene place m mappingGraph? node position)
      (.link scene { place with link? := some k } m node id domainGraph? l)
  | path (scene : Scene) (place : Place) (m : Mapping) (domainNode : Location) (id : Nat)
      (domainGraph? linkGraph? : Option String) (l : Link) (hl : l.target.isMerge = false)
      (node : Location) (position : Nat) :
    Opens (.link scene place m domainNode id domainGraph? l)
      (.path ⟨scene, place, m, l, id, domainGraph?, linkGraph?⟩ l.source.isJoin node position)
  | range (l : LinkSetting) (joined : Bool) (pathNode : Location) (pathPosition id : Nat)
      (ids : List Nat) (node : Location) (position : Nat) :
    Opens (.path l joined pathNode pathPosition) (.range l id ids node position)

/-- How many kinds of parts there are inside of a part. -/
def Part.depth : Part → Nat
  | mapping .. => 4
  | domain .. => 3
  | link .. => 2
  | path .. => 1
  | range .. => 0

namespace Part

variable {p q : Part} {parts : List Part} {s t : RunState}

theorem depth_le (p : Part) : p.depth ≤ 4 := by
  cases p <;> simp [depth]

theorem Opens.depth_eq (h : Opens p q) : q.depth + 1 = p.depth := by
  cases h <;> rfl

theorem opens_mapping {scene : Scene} {number : Nat} {m : Mapping}
    (h : outcome (openMapping scene number m) s = (.ok parts, t)) (hq : q ∈ parts) :
    Opens (mapping scene number m) q := by
  obtain ⟨_, _, _, h⟩ := bind_ok.1 h
  obtain ⟨nodes, _, hselect, h⟩ := bind_ok.1 h
  obtain ⟨_, _, _, h⟩ := bind_ok.1 h
  cases h
  obtain ⟨_, node, hnode, rfl⟩ := mem_domains hq
  exact .domain _ _ _ _ nodes node _ (ofSetup_ok.1 hselect).1 (List.mem_of_getElem? hnode)

theorem opens_domain {scene : Scene} {place : Place} {m : Mapping} {mappingGraph? : Option String}
    {node : Location} {position : Nat}
    (h : outcome (openDomain scene place m mappingGraph? node position) s = (.ok parts, t))
    (hq : q ∈ parts) : Opens (domain scene place m mappingGraph? node position) q := by
  obtain ⟨_, _, _, h⟩ := bind_ok.1 h
  obtain ⟨_, _, _, h⟩ := bind_ok.1 h
  obtain ⟨_, _, _, h⟩ := bind_ok.1 h
  split at h
  · obtain ⟨_, _, _, h⟩ := bind_ok.1 h
    cases h
    cases hq
  · obtain ⟨_, _, _, h⟩ := bind_ok.1 h
    split at h
    · obtain ⟨_, _, _, h⟩ := bind_ok.1 h
      obtain ⟨_, _, _, h⟩ := bind_ok.1 h
      cases h
      obtain ⟨_, l, hl, hskip, rfl⟩ := mem_links hq
      exact .link _ _ _ _ _ _ _ _ _ _ (List.mem_of_getElem? hl) hskip
    · cases h

theorem eq_path_of_openFollowed {l : LinkSetting} {domainNode : Location}
    (h : outcome (openFollowed l domainNode) s = (.ok parts, t)) (hq : q ∈ parts) :
    ∃ node position, q = path l l.link.source.isJoin node position := by
  rw [openFollowed] at h
  split at h
  next hjoin =>
    obtain ⟨_, _, _, h⟩ := bind_ok.1 h
    obtain ⟨_, _, _, h⟩ := bind_ok.1 h
    cases h
    obtain ⟨_, node, _, rfl⟩ := mem_paths hq
    exact ⟨node, _, by rw [hjoin]⟩
  next hjoin =>
    obtain ⟨_, _, _, h⟩ := bind_ok.1 h
    cases h
    obtain ⟨_, node, _, rfl⟩ := mem_paths hq
    exact ⟨node, _, by rw [Bool.eq_false_iff.2 hjoin]⟩

theorem opens_link {scene : Scene} {place : Place} {m : Mapping} {node : Location} {id : Nat}
    {domainGraph? : Option String} {l : Link}
    (h : outcome (openLink scene place m id domainGraph? l) s = (.ok parts, t)) (hq : q ∈ parts) :
    Opens (link scene place m node id domainGraph? l) q := by
  obtain ⟨_, _, _, h⟩ := bind_ok.1 h
  obtain ⟨_, _, _, h⟩ := bind_ok.1 h
  obtain ⟨_, _, _, h⟩ := bind_ok.1 h
  split at h
  · obtain ⟨_, _, _, h⟩ := bind_ok.1 h
    cases h
    cases hq
  next hmerge =>
    obtain ⟨node, position, rfl⟩ := eq_path_of_openFollowed h hq
    exact .path _ _ _ _ _ _ _ _ (by simpa using hmerge) _ _

theorem opens_path {l : LinkSetting} {joined : Bool} {node : Location} {position : Nat}
    (h : outcome (openPath l joined node position) s = (.ok parts, t)) (hq : q ∈ parts) :
    Opens (path l joined node position) q := by
  obtain ⟨_, _, _, h⟩ := bind_ok.1 h
  obtain ⟨_, _, _, h⟩ := bind_ok.1 h
  split at h
  · cases h
    cases hq
  · obtain ⟨_, _, _, h⟩ := bind_ok.1 h
    split at h
    · cases h
      obtain ⟨_, _, _, rfl⟩ := mem_ranges hq
      exact .range ..
    · obtain ⟨_, _, _, h⟩ := bind_ok.1 h
      cases h
      obtain ⟨_, _, _, rfl⟩ := mem_ranges hq
      exact .range ..

theorem opens_of_opening (h : outcome p.opening s = (.ok parts, t)) (hq : q ∈ parts) :
    p.Opens q := by
  cases p with
  | mapping => exact opens_mapping h hq
  | domain => exact opens_domain h hq
  | link => exact opens_link h hq
  | path => exact opens_path h hq
  | range =>
    obtain ⟨_, _, _, h⟩ := bind_ok.1 h
    cases h
    cases hq

theorem opening_eq_nil (hd : p.depth = 0) (h : outcome p.opening s = (.ok parts, t)) :
    parts = [] := by
  refine List.eq_nil_iff_forall_not_mem.2 fun q hq => ?_
  have := (opens_of_opening h hq).depth_eq
  omega

end Part

end Crosswalk.Run
