import Crosswalk.Proofs.Gathering
import Crosswalk.Proofs.RunEntries
import Crosswalk.Proofs.RunNodes
import Mathlib.Algebra.GroupWithZero.Nat

/-!
# The account that a run gives

A run counts while it goes along, at different places and across early ends. What it counts is told by its
entries: domain nodes that are filtered out or dropped, links that are followed from the others, and
branches that are written. A branch is written if no condition keeps it out and nothing goes wrong with it,
and not otherwise. The diagnostics follow the order of the mappings, and each names the mapping and the link
at which a part was dropped.
-/

namespace Crosswalk

open Crosswalk.Xml (Location)

/-- A condition keeps a node out. -/
def Scene.filters (scene : Scene) (condition? : Option Condition) (node : Location) : Bool :=
  match Condition.guardFails scene.conditionSetting node condition? with
  | .ok b => b
  | .error _ => false

theorem Scene.filters_of_ok {scene : Scene} {condition? : Option Condition} {node : Location} {b : Bool}
    (h : Condition.guardFails scene.conditionSetting node condition? = .ok b) :
    scene.filters condition? node = b := by
  rw [filters, h]

instance : Add Counters where
  add a b := ⟨a.domainsMatched + b.domainsMatched, a.domainsFiltered + b.domainsFiltered,
    a.domainsFailed + b.domainsFailed, a.linksAttempted + b.linksAttempted,
    a.rangesLinked + b.rangesLinked⟩

namespace Run

namespace Part

def isDomain : Part → Bool
  | domain .. => true
  | _ => false

def isLink : Part → Bool
  | link .. => true
  | _ => false

/-- What ends in a statement about a range: a range, or a link that merges its range into the domain. -/
def isBranch : Part → Bool
  | link _ _ _ _ _ _ l => l.target.isMerge
  | range .. => true
  | _ => false

/-- A condition keeps out what the part stands for. -/
def isFiltered : Part → Bool
  | domain scene _ m _ node _ => scene.filters m.domain.target.condition? node
  | link scene _ _ node _ _ l =>
    l.target.isMerge &&
      (scene.filters l.target.condition? node || scene.filters l.range.target.condition? node)
  | path l _ node _ => l.scene.filters l.link.target.condition? node
  | range l _ _ node _ => l.scene.filters l.link.range.target.condition? node
  | mapping .. => false

/-- The nodes that a mapping selects, with the mapping and its number. -/
def selected : Part → List (Nat × Mapping × Location)
  | mapping scene number m =>
    ((scene.source.select .root m.domain.sourceNode).toOption.getD []).map fun node => (number, m, node)
  | _ => []

/-- The node that a domain node stands for, with its mapping and the number of that. -/
def domainNode? : Part → Option (Nat × Mapping × Location)
  | domain _ place m _ node _ => some (place.mapping, m, node)
  | _ => none

/-- How many links are to be followed from a domain node. -/
def followed : Part → Nat
  | domain _ _ m .. => (m.links.filter (!·.skip)).length
  | _ => 0

end Part

/-- What the part has gathered is written to the graph. -/
def Entry.isCommitted (e : Entry) : Bool :=
  match outcome e.1.gather e.2 with
  | (.ok gathered, t) => gathered.batch?.any fun batch => (t.graph.add batch.statements).isOk
  | _ => false

/-- What an entry adds to the counters. -/
def Entry.counts (e : Entry) : Counters where
  domainsMatched := e.1.selected.length
  domainsFiltered := (e.1.isDomain && e.1.isFiltered).toNat
  domainsFailed := (e.1.isDomain && e.cause?.isSome).toNat
  linksAttempted := e.1.isLink.toNat
  rangesLinked := (e.1.isBranch && e.isCommitted).toNat

/-! ## Gathering and writing -/

section

variable {p : Part} {parts : List Part} {s t u : RunState} {cause : DropCause}

/-- The counters are what they were. -/
def SameCounters (s t : RunState) : Prop :=
  t.counters = s.counters

instance : IsPreorder RunState SameCounters where
  refl _ := rfl
  trans _ _ _ h h' := h'.trans h

theorem outcome_discards {scene : Scene} {condition? : Option Condition} {node : Location} {b : Bool}
    (h : Condition.guardFails scene.conditionSetting node condition? = .ok b) (s : RunState) :
    outcome (discards scene condition? node) s = (.ok b, s) :=
  discards_ok.2 ⟨h, rfl⟩

theorem outcome_discards_of_error {scene : Scene} {condition? : Option Condition} {node : Location}
    {e : RunError} (h : Condition.guardFails scene.conditionSetting node condition? = .error e)
    (s : RunState) : outcome (discards scene condition? node) s = (.error (.abort e), s) := by
  rw [discards, h]
  rfl

theorem openMapping_counters {scene : Scene} {number : Nat} {m : Mapping}
    (h : outcome (openMapping scene number m) s = (.ok parts, t)) :
    t.counters = s.counters + Entry.counts (.mapping scene number m, s) := by
  obtain ⟨graph?, t₁, h₁, hrest⟩ := bind_ok.1 h
  obtain ⟨rfl, -⟩ := namedGraph_ok h₁
  obtain ⟨nodes, t₂, h₂, hrest⟩ := bind_ok.1 hrest
  obtain ⟨hnodes, rfl⟩ := ofSetup_ok.1 h₂
  obtain ⟨_, t₃, h₃, hrest⟩ := bind_ok.1 hrest
  cases h₃
  cases hrest
  rw [Entry.counts, Part.selected, hnodes, List.length_map]
  rfl

/-- A domain node is counted if it is filtered out. -/
theorem gatherDomain_counters (scene : Scene) (place : Place) (m : Mapping) (mappingGraph? : Option String)
    (node : Location) (position : Nat) (s : RunState) :
    (after (gatherDomain scene place m mappingGraph? node position) s).counters = s.counters +
      ⟨0, (scene.filters m.domain.target.condition? node).toNat, 0, 0, 0⟩ := by
  rw [gatherDomain, after_bind_of_ok (outcome_modify _ s), after_bind_of_ok (outcome_enter _ _)]
  rcases hguard : Condition.guardFails scene.conditionSetting node m.domain.target.condition? with e | b
  · rw [after_bind, outcome_discards_of_error hguard, Scene.filters, hguard]
    rfl
  rw [after_bind_of_ok (outcome_discards hguard _), Scene.filters_of_ok hguard]
  cases b with
  | true => rfl
  | false =>
    have hfresh := Context.isFresh_fresh .domain node position none
    change SameCounters ({ s with contexts := .empty }.enter (.fresh .domain node position none)) (after _ _)
    refine rel_bind (resolveEntered_meets hfresh _ none _).1.counters_eq fun r t _ => ?_
    split
    · refine rel_bind (domainGraph_reads scene m mappingGraph? node position t).counters_eq fun g u _ => ?_
      exact Moves.bind (.of_after_eq fun s => after_eq (outcome_stage ..)) (fun _ => .pure _) u
    · exact Moves.drop _ t

theorem gatherLink_counters (scene : Scene) (place : Place) (m : Mapping) (id : Nat)
    (domainGraph? : Option String) (l : Link) (s : RunState) :
    (after (gatherLink scene place m id domainGraph? l) s).counters = s.counters + ⟨0, 0, 0, 1, 0⟩ := by
  have hrest : SameCounters s.countLink (after (gatherLink scene place m id domainGraph? l) s) := by
    refine Moves.bind (namedGraph_moves _ _ _) (fun g => .context_bind fun t => ?_) s.countLink
    split
    · exact Moves.bind (fun t => (gatherMerge_reads _ _ _ t).counters_eq) (fun _ => .pure _) t
    · exact Moves.bind (openFollowed_moves (fun _ _ _ => rfl) _) (fun _ => .pure _) t
  exact hrest

/-- Before anything is written, the domain nodes that are filtered out and the links have been counted. -/
theorem gather_counters (hp : p.depth < 4) (s : RunState) :
    (after p.gather s).counters =
      s.counters + ⟨0, (p.isDomain && p.isFiltered).toNat, 0, p.isLink.toNat, 0⟩ := by
  have unread {α β : Type} (m : Run α) (f : α → β) (h : Reads 0 s (after m s)) :
      (after (m >>= fun a => pure (f a)) s).counters = s.counters + default := by
    rw [after_bind_of_after fun _ _ => rfl]
    exact h.counters_eq
  cases p with
  | mapping => simp [Part.depth] at hp
  | domain scene place m mappingGraph? node position =>
    exact gatherDomain_counters scene place m mappingGraph? node position s
  | link scene place m node id domainGraph? l => exact gatherLink_counters scene place m id domainGraph? l s
  | path l joined node position => exact unread _ _ (openPath_reads l joined node position s)
  | range l path ids node position => exact unread _ _ (gatherRange_reads l path ids node position s)

/-- Besides domain nodes only branches gather something to be written. -/
theorem batch?_of_gather {gathered : Gathered} (h : outcome p.gather s = (.ok gathered, t))
    (hp : p.isDomain = false) (hbranch : p.isBranch = false) : gathered.batch? = none := by
  cases p with
  | mapping =>
    obtain ⟨_, _, _, h⟩ := bind_ok.1 h
    cases h
    rfl
  | domain => cases hp
  | link scene place m node id domainGraph? l =>
    obtain ⟨_, _, _, h⟩ := bind_ok.1 h
    obtain ⟨_, _, _, h⟩ := bind_ok.1 h
    obtain ⟨_, _, _, h⟩ := bind_ok.1 h
    have hmerge : ¬l.target.isMerge = true := Bool.eq_false_iff.1 hbranch
    rw [if_neg hmerge] at h
    obtain ⟨_, _, _, h⟩ := bind_ok.1 h
    cases h
    rfl
  | path =>
    obtain ⟨_, _, _, h⟩ := bind_ok.1 h
    cases h
    rfl
  | range => cases hbranch

theorem commit_ok {batch : Batch} (h : outcome (commit batch) s = (.ok (), t)) :
    (s.graph.add batch.statements).isOk = true ∧ t.counters = s.counters := by
  rw [outcome_commit] at h
  rcases hadd : s.graph.add batch.statements with e | graph <;> rw [hadd] at h <;> cases h
  exact ⟨rfl, rfl⟩

theorem commit_error {batch : Batch} {e : Fault} (h : outcome (commit batch) s = (.error e, t)) :
    (s.graph.add batch.statements).isOk = false ∧ t = s := by
  rw [outcome_commit] at h
  rcases hadd : s.graph.add batch.statements with e | graph <;> rw [hadd] at h <;> cases h
  exact ⟨rfl, rfl⟩

theorem writeGathered_ok {batch? : Option Batch} (h : outcome (writeGathered batch?) s = (.ok (), t)) :
    batch?.any (fun batch => (s.graph.add batch.statements).isOk) = batch?.isSome ∧
      t.counters = s.counters + ⟨0, 0, 0, 0, batch?.isSome.toNat⟩ := by
  cases batch? with
  | none =>
    cases h
    exact ⟨rfl, rfl⟩
  | some batch =>
    obtain ⟨⟨⟩, u, hcommit, h⟩ := bind_ok.1 h
    obtain ⟨haccepted, hsame⟩ := commit_ok hcommit
    cases h
    exact ⟨haccepted, by rw [← hsame]; rfl⟩

theorem write_ok {batch? : Option Batch} (h : outcome (p.write batch?) s = (.ok (), t)) :
    batch?.any (fun batch => (s.graph.add batch.statements).isOk) = batch?.isSome ∧
      t.counters = s.counters + ⟨0, 0, 0, 0, (!p.isDomain && batch?.isSome).toNat⟩ := by
  cases p with
  | domain =>
    cases batch? with
    | none =>
      cases h
      exact ⟨rfl, rfl⟩
    | some batch => exact commit_ok h
  | _ => exact writeGathered_ok h

theorem write_error {batch? : Option Batch} {e : Fault} (h : outcome (p.write batch?) s = (.error e, t)) :
    batch?.any (fun batch => (s.graph.add batch.statements).isOk) = false ∧ t = s := by
  have gathered (h : outcome (writeGathered batch?) s = (.error e, t)) :
      batch?.any (fun batch => (s.graph.add batch.statements).isOk) = false ∧ t = s := by
    cases batch? with
    | none => cases h
    | some batch =>
      rcases bind_error.1 h with h | ⟨_, _, _, h⟩
      · exact commit_error h
      · cases h
  cases p with
  | domain =>
    cases batch? with
    | none => cases h
    | some batch => exact commit_error h
  | _ => exact gathered h

/-! ## Openings -/

theorem Entry.isCommitted_of_opened (h : outcome p.opening s = (.ok parts, t)) :
    ∃ gathered u, outcome p.gather s = (.ok gathered, u) ∧
      outcome (p.write gathered.batch?) u = (.ok (), t) ∧ parts = gathered.parts ∧
      Entry.isCommitted (p, s) = gathered.batch?.isSome := by
  obtain ⟨gathered, u, hgathered, hwritten, hparts⟩ := Part.opening_ok h
  refine ⟨gathered, u, hgathered, hwritten, hparts, ?_⟩
  rw [Entry.isCommitted, hgathered]
  exact (write_ok hwritten).1

theorem Entry.isCommitted_of_dropped (h : outcome p.opening s = (.error (.drop cause), t)) :
    Entry.isCommitted (p, s) = false ∧ t = after p.gather s := by
  rw [p.opening_eq] at h
  rw [Entry.isCommitted]
  rcases bind_error.1 h with h | ⟨gathered, u, hgathered, h⟩
  · rw [h, after_eq h]
    exact ⟨rfl, rfl⟩
  · rcases bind_error.1 h with h | ⟨_, _, _, h⟩
    · obtain ⟨hrejected, rfl⟩ := write_error h
      rw [hgathered, after_eq hgathered]
      exact ⟨hrejected, rfl⟩
    · cases h

theorem opened_counters (h : outcome p.opening s = (.ok parts, t)) :
    t.counters = s.counters + Entry.counts (p, s) := by
  by_cases hp : p.depth < 4
  · obtain ⟨gathered, u, hgathered, hwritten, -, hcommitted⟩ := Entry.isCommitted_of_opened h
    have hcounted := gather_counters hp s
    rw [after_eq hgathered] at hcounted
    have hbranch : (!p.isDomain && gathered.batch?.isSome) = (p.isBranch && Entry.isCommitted (p, s)) := by
      rw [hcommitted]
      cases hdomain : p.isDomain <;> cases hbranch : p.isBranch
      · rw [batch?_of_gather hgathered hdomain hbranch]
        rfl
      · rfl
      · rfl
      · cases p <;> simp [Part.isDomain, Part.isBranch] at hdomain hbranch
    have hselected : p.selected = [] := by
      cases p with
      | mapping => simp [Part.depth] at hp
      | _ => rfl
    rw [(write_ok hwritten).2, hcounted, hbranch, Entry.counts, hselected, Entry.cause?_of_opened h,
      Option.isSome_none, Bool.and_false]
    rfl
  · cases p with
    | mapping scene number m => exact openMapping_counters h
    | _ => simp [Part.depth] at hp

theorem dropped_counters (h : outcome p.opening s = (.error (.drop cause), t))
    (hrecovered : outcome (p.recover cause) t = (.ok (), u)) :
    u.counters = s.counters + Entry.counts (p, s) := by
  obtain ⟨hcommitted, rfl⟩ := Entry.isCommitted_of_dropped h
  have hcounted (hp : p.depth < 4) := gather_counters hp s
  rw [Entry.counts, hcommitted, Entry.cause?_of_dropped h, Bool.and_false]
  cases p with
  | mapping => cases hrecovered
  | _ =>
    cases hrecovered
    simp only [hcounted (by simp [Part.depth])]
    rfl

end

/-- The counters are those at the start and what the entries add to them. -/
theorem adds_counts : Adds fun es s t => t.counters = es.foldl (fun c e => c + Entry.counts e) s.counters where
  nil _ := rfl
  append h h' := by rw [h', h, List.foldl_append]
  opened := opened_counters
  dropped := dropped_counters

/-- A counter is a sum over the entries. -/
theorem foldl_counts {f : Counters → Nat} (hf : ∀ c c' : Counters, f (c + c') = f c + f c')
    (es : List Entry) (c : Counters) : f (es.foldl (fun c e => c + Entry.counts e) c) =
      f c + (es.map fun e => f (Entry.counts e)).sum := by
  induction es generalizing c with
  | nil => rfl
  | cons e es ih => rw [List.foldl_cons, ih, hf, List.map_cons, List.sum_cons, Nat.add_assoc]

theorem sum_toNat {α : Type} (p : α → Bool) (as : List α) :
    (as.map fun a => (p a).toNat).sum = as.countP p := by
  induction as with
  | nil => rfl
  | cons a as ih =>
    rw [List.map_cons, List.sum_cons, ih, List.countP_cons]
    cases p a <;> simp [Nat.add_comm]

theorem sum_filter {α : Type} {p : α → Bool} {f g : α → Nat} {as : List α}
    (h : ∀ a ∈ as, f a = if p a then g a else 0) : (as.map f).sum = ((as.filter p).map g).sum := by
  induction as with
  | nil => rfl
  | cons a as ih =>
    obtain ⟨ha, hrest⟩ := List.forall_mem_cons.1 h
    rw [List.map_cons, List.sum_cons, ih hrest, ha]
    cases hp : p a
    · rw [List.filter_cons_of_neg (by simp [hp]), if_neg Bool.false_ne_true, Nat.zero_add]
    · rw [List.filter_cons_of_pos hp, List.map_cons, List.sum_cons, if_pos rfl]

/-! ## What is filtered out -/

section

variable {l : LinkSetting} {node : Location} {position : Nat} {batch? : Option Batch} {s t : RunState}

/-- A range has something to be written if it is not filtered out. -/
theorem isSome_of_gatherRange {path : Nat} {ids : List Nat} (hdomain : s.contexts.HasResource l.domain)
    (h : outcome (gatherRange l path ids node position) s = (.ok batch?, t)) :
    batch?.isSome = !l.scene.filters l.link.range.target.condition? node := by
  have hrange := Context.isFresh_fresh .range node position (some path)
  obtain ⟨range, t₁, h₁, h⟩ := bind_ok.1 h
  obtain ⟨-, hlive, hnew, -⟩ := (enter_meets hrange s (n := 0)).2 _ _ h₁
  have hentered : s.contexts.Extends t₁.contexts := after_eq h₁ ▸ (enter_meets hrange s (n := 0)).1.extends
  obtain ⟨b, t₂, h₂, h⟩ := bind_ok.1 h
  obtain ⟨hguard, ht⟩ := discards_ok.1 h₂
  subst t₂
  rw [Scene.filters_of_ok hguard]
  split at h
  next hb =>
    cases h
    rw [hb]
    rfl
  next hb =>
    obtain ⟨r, t₃, hr, h⟩ := bind_ok.1 h
    have hresolved : Reads 0 t₁ t₃ :=
      after_eq hr ▸ (resolveWith_new_meets l.link.range.target.entity none hlive hnew).1
    obtain ⟨d, hd, -⟩ := hdomain.extends (hentered.trans hresolved.extends)
    obtain ⟨value?, t₄, h₄, h⟩ := bind_ok.1 h
    rw [outcome_resolvedValue?, hd] at h₄
    cases h₄
    obtain ⟨_, _, _, h⟩ := bind_ok.1 h
    obtain ⟨_, _, _, h⟩ := bind_ok.1 h
    obtain ⟨_, _, _, h⟩ := bind_ok.1 h
    obtain ⟨_, _, _, h⟩ := bind_ok.1 h
    obtain ⟨_, _, _, h⟩ := bind_ok.1 h
    cases h
    rw [Bool.eq_false_iff.2 hb]
    rfl

/-- A link that merges has something to be written if neither of its conditions filters it out. -/
theorem isSome_of_gatherMerge (hdomain : s.contexts.HasResource l.domain)
    (h : outcome (gatherMerge l node position) s = (.ok batch?, t)) :
    batch?.isSome = !(l.scene.filters l.link.target.condition? node ||
      l.scene.filters l.link.range.target.condition? node) := by
  have hpath := Context.isFresh_fresh .path node position (some l.domain)
  obtain ⟨path, t₁, h₁, h⟩ := bind_ok.1 h
  have hentered : s.contexts.Extends t₁.contexts := after_eq h₁ ▸ (enter_meets hpath s (n := 0)).1.extends
  obtain ⟨b, t₂, h₂, h⟩ := bind_ok.1 h
  obtain ⟨hguard, ht⟩ := discards_ok.1 h₂
  subst t₂
  rw [Scene.filters_of_ok hguard]
  split at h
  next hb =>
    cases h
    rw [hb]
    rfl
  next hb =>
    have hrange := Context.isFresh_fresh .range node position (some path)
    obtain ⟨range, t₃, h₃, h⟩ := bind_ok.1 h
    have hentered' : t₁.contexts.Extends t₃.contexts :=
      after_eq h₃ ▸ (enter_meets hrange t₁ (n := 0)).1.extends
    obtain ⟨b', t₄, h₄, h⟩ := bind_ok.1 h
    obtain ⟨hguard', ht⟩ := discards_ok.1 h₄
    subst t₄
    rw [Scene.filters_of_ok hguard', Bool.eq_false_iff.2 hb, Bool.false_or]
    split at h
    next hb' =>
      cases h
      rw [hb']
      rfl
    next hb' =>
      obtain ⟨d, hd, -⟩ := hdomain.extends (hentered.trans hentered')
      obtain ⟨identity?, t₅, h₅, h⟩ := bind_ok.1 h
      rw [outcome_resolvedValue?, hd] at h₅
      cases h₅
      obtain ⟨_, _, _, h⟩ := bind_ok.1 h
      obtain ⟨_, _, _, h⟩ := bind_ok.1 h
      cases h
      rw [Bool.eq_false_iff.2 hb']
      rfl

/-- A branch has something to be written if it is not filtered out. -/
theorem isSome_of_gather {p : Part} {gathered : Gathered} (hp : TypedEntry p s) (hbranch : p.isBranch = true)
    (h : outcome p.gather s = (.ok gathered, t)) : gathered.batch?.isSome = !p.isFiltered := by
  cases p with
  | link scene place m domainNode id domainGraph? link =>
    have hmerge : link.target.isMerge = true := hbranch
    obtain ⟨-, hdomain, hnode⟩ := hp
    obtain ⟨_, t₁, h₁, h⟩ := bind_ok.1 h
    cases h₁
    obtain ⟨graph?, t₂, h₂, h⟩ := bind_ok.1 h
    obtain ⟨rfl, -⟩ := namedGraph_ok h₂
    obtain ⟨c, t₃, h₃, h⟩ := bind_ok.1 h
    rw [outcome_context] at h₃
    cases h₃
    rw [if_pos hmerge] at h
    obtain ⟨batch?, t₄, h₄, h⟩ := bind_ok.1 h
    cases h
    rw [Part.isFiltered, hmerge, Bool.true_and, ← hnode]
    let setting : LinkSetting := ⟨scene, place, m, link, id, domainGraph?, graph?⟩
    exact isSome_of_gatherMerge (l := setting) (s := s.countLink) hdomain h₄
  | range l path ids node position =>
    obtain ⟨batch?, t₁, h₁, h⟩ := bind_ok.1 h
    cases h
    exact isSome_of_gatherRange hp.2.1 h₁
  | _ => cases hbranch

end

/-! ## Numbered lists -/

theorem Part.flatMap_numbered {α β : Type} (f : Nat → α → Option Part) (g : Part → List β) (k : Nat)
    (as : List α) : (numbered f k as).flatMap g =
      (as.zipIdx k).flatMap fun a => (f a.2 a.1).toList.flatMap g := by
  induction as generalizing k with
  | nil => rfl
  | cons a rest ih =>
    rw [numbered, List.zipIdx_cons, List.flatMap_cons, ← ih]
    split
    next p hp => simp [hp]
    next hp => simp [hp]

theorem Part.length_links (scene : Scene) (place : Place) (m : Mapping) (node : Location) (domain : Nat)
    (domainGraph? : Option String) (k : Nat) (ls : List Link) :
    (links scene place m node domain domainGraph? k ls).length = (ls.filter (!·.skip)).length := by
  rw [links]
  induction ls generalizing k with
  | nil => rfl
  | cons l rest ih =>
    rw [numbered]
    cases hskip : l.skip <;> simp [hskip, ih]

theorem Part.pairwise_mappings (scene : Scene) (k : Nat) (ms : List Mapping) :
    (mappings scene k ms).Pairwise fun p q => p.number ≤ q.number := by
  rw [mappings]
  induction ms generalizing k with
  | nil => exact .nil
  | cons m rest ih =>
    rw [numbered]
    split
    next p hp =>
      refine List.pairwise_cons.2 ⟨fun q hq => ?_, ih (k + 1)⟩
      obtain ⟨i, n, -, -, rfl⟩ := mem_mappings hq
      cases hskip : m.skip <;> simp [hskip] at hp
      subst hp
      simp only [number]
      omega
    next => exact ih (k + 1)

end Run

namespace Engine

open Run

variable {engine : Engine} {seed : List UInt8} {document : Xml.Document} {p : Part} {s t : RunState}
  {entries : List Entry} {report : Report}

/-- The domain nodes of a run: the nodes that mappings which are not skipped select, each with its mapping
and the number of that. -/
def domainNodes (engine : Engine) (document : Xml.Document) : List (Nat × Mapping × Location) :=
  (engine.mapping.mappings.zipIdx 1).flatMap fun (m, k) =>
    if m.skip then []
    else (((engine.source document).select .root m.domain.sourceNode).toOption.getD []).map fun node =>
      (k, m, node)

/-- What a run counts and reports is told by its entries. -/
structure AccountsFor (engine : Engine) (document : Xml.Document) (entries : List Entry) (report : Report) :
    Prop where
  reported : report.diagnostics = entries.filterMap Entry.reported?
  domains : entries.filterMap (fun e => e.1.domainNode?) = engine.domainNodes document
  matched : report.counters.domainsMatched = (engine.domainNodes document).length
  filtered : report.counters.domainsFiltered = entries.countP fun e => e.1.isDomain && e.1.isFiltered
  failed : report.counters.domainsFailed = report.diagnostics.countP fun d => d.place.link?.isNone
  attempted : report.counters.linksAttempted =
    ((entries.filter fun e => e.1.isDomain && !e.1.isFiltered && e.cause?.isNone).map fun e =>
      e.1.followed).sum
  linked : report.counters.rangesLinked = entries.countP fun e => e.1.isBranch && e.isCommitted
  committed : ∀ e ∈ entries, e.1.isBranch = true →
    (e.isCommitted = true ↔ e.1.isFiltered = false ∧ e.cause? = none)
  ordered : report.diagnostics.Pairwise fun d d' => d.place.mapping ≤ d'.place.mapping
  named : ∀ d ∈ report.diagnostics, ∃ k m, d.place.mapping = k + 1 ∧ engine.mapping.mappings[k]? = some m ∧
    m.skip = false ∧ ∀ i ∈ d.place.link?, ∃ j l, i = j + 1 ∧ m.links[j]? = some l ∧ l.skip = false

theorem counter_eq (h : Completes (engine.parts document) (engine.start seed) entries t) {f : Counters → Nat}
    (hf : ∀ c c' : Counters, f (c + c') = f c + f c') (hstart : f default = 0) :
    f t.counters = (entries.map fun e => f (Entry.counts e)).sum := by
  have hcounters : t.counters = entries.foldl (fun c e => c + Entry.counts e) default := h.adds adds_counts
  rw [hcounters, foldl_counts hf, hstart, Nat.zero_add]

theorem reported_eq (h : Completes (engine.parts document) (engine.start seed) entries t) :
    t.diagnostics = entries.filterMap Entry.reported? :=
  (h.adds adds_reported).trans (List.nil_append _)

/-- A branch is written if nothing keeps it out and it is not dropped. -/
theorem isCommitted_iff (h : engine.execute seed document = .ok report)
    (hp : engine.Enters seed document p s) (hbranch : p.isBranch = true) :
    Entry.isCommitted (p, s) = true ↔ p.isFiltered = false ∧ Entry.cause? (p, s) = none := by
  rcases opens_or_drops h hp with ⟨parts, u, hopened⟩ | ⟨cause, u, hdrops⟩
  · obtain ⟨gathered, v, hgathered, -, -, hcommitted⟩ := Entry.isCommitted_of_opened hopened
    rw [hcommitted, isSome_of_gather (typedEntry_of_enters hp) hbranch hgathered,
      Entry.cause?_of_opened hopened]
    simp
  · have hdropped := drops_iff_opening.1 hdrops.dropped
    rw [(Entry.isCommitted_of_dropped hdropped).1, Entry.cause?_of_dropped hdropped]
    simp

/-! ## Domain nodes and their links -/

theorem domainNodes_eq (engine : Engine) (document : Xml.Document) :
    (engine.parts document).flatMap Part.selected = engine.domainNodes document := by
  rw [parts, Part.mappings, Part.flatMap_numbered, domainNodes]
  refine List.flatMap_congr fun a _ => ?_
  obtain ⟨m, k⟩ := a
  cases hskip : m.skip <;> simp [hskip, Part.selected, scene]

theorem filterMap_domains (scene : Scene) (place : Place) (m : Mapping) (g? : Option String) (position : Nat)
    (nodes : List Location) : (Part.domains scene place m g? position nodes).filterMap Part.domainNode? =
      nodes.map fun node => (place.mapping, m, node) := by
  rw [Part.domains]
  induction nodes generalizing position with
  | nil => rfl
  | cons node rest ih =>
    rw [List.map_cons, ← ih (position + 1)]
    rfl

/-- A mapping leaves the domain nodes that it selects. -/
theorem domainNodes_of_opened (hp : p.depth = 4) {parts : List Part}
    (h : outcome p.opening s = (.ok parts, t)) : parts.filterMap Part.domainNode? = p.selected := by
  cases p with
  | mapping scene number m =>
    obtain ⟨graph?, nodes, -, hnodes, -, -, rfl⟩ := openMapping_ok h
    rw [filterMap_domains, Part.selected, hnodes]
    rfl
  | _ => cases hp

/-- A domain node that is neither filtered out nor dropped leaves the links that are not skipped. -/
theorem length_opened (h : engine.execute seed document = .ok report) (hp : engine.Enters seed document p s)
    (hdomain : p.isDomain = true) : (Entry.opened (p, s)).length =
      if !p.isFiltered && (Entry.cause? (p, s)).isNone then p.followed else 0 := by
  rcases opens_or_drops h hp with ⟨parts, u, hopened⟩ | ⟨cause, u, hdrops⟩
  · rw [Entry.opened_eq hopened, Entry.cause?_of_opened hopened]
    cases p with
    | domain scene place m mappingGraph? node position =>
      rw [Part.isFiltered]
      rcases openDomain_ok hopened with ⟨hguard, rfl, -⟩ | ⟨hguard, r, v, graph?, w, -, -, -, -, rfl⟩
      · rw [Scene.filters_of_ok hguard]
        rfl
      · rw [Scene.filters_of_ok hguard, Part.length_links]
        rfl
    | _ => cases hdomain
  · have hdropped := drops_iff_opening.1 hdrops.dropped
    rw [Entry.opened_of_dropped hdropped, Entry.cause?_of_dropped hdropped]
    simp

theorem flatMap_entriesAt {β : Type} {n : Nat} {f : Part → List β} (hf : ∀ p, p.depth ≠ n → f p = [])
    (es : List Entry) : es.flatMap (fun e => f e.1) = ((entriesAt n es).map Prod.fst).flatMap f := by
  induction es with
  | nil => rfl
  | cons e es ih =>
    obtain ⟨p, s⟩ := e
    rw [List.flatMap_cons, ih]
    by_cases hp : p.depth = n
    · rw [entriesAt_cons_of_eq hp, List.map_cons, List.flatMap_cons]
    · rw [entriesAt_cons_of_ne hp, hf p hp, List.nil_append]

section

variable (h : Completes (engine.parts document) (engine.start seed) entries t)

include h

theorem map_entriesAt_mappings : (entriesAt 4 entries).map Prod.fst = engine.parts document :=
  h.map_entriesAt fun _ hp => depth_of_mem_parts hp

theorem flatMap_selected : entries.flatMap (fun e => e.1.selected) = engine.domainNodes document := by
  rw [flatMap_entriesAt (n := 4), map_entriesAt_mappings h, domainNodes_eq]
  intro p hp
  cases p with
  | mapping => exact absurd rfl hp
  | _ => rfl

theorem filterMap_domainNode? :
    entries.filterMap (fun e => e.1.domainNode?) = engine.domainNodes document := by
  have hdepth (p : Part) (hp : p.depth ≠ 3) : p.domainNode?.toList = [] := by
    cases p with
    | domain => exact absurd rfl hp
    | _ => rfl
  have hmappings : ∀ e ∈ entriesAt 4 entries, e.opened.flatMap (·.domainNode?.toList) = e.1.selected := by
    rintro ⟨p, s⟩ he
    obtain ⟨he, hp⟩ := List.mem_filter.1 he
    have hp : p.depth = 4 := by simpa using hp
    obtain ⟨u, hguarded⟩ := (h.mem_iff.1 he).exists_guarded_ok h.outcome_runAll
    rcases guarded_ok.1 hguarded with ⟨parts, v, hopened, -⟩ | ⟨cause, v, -, hrecovered⟩
    · rw [Entry.opened_eq hopened, ← List.filterMap_eq_flatMap_toList]
      exact domainNodes_of_opened hp hopened
    · cases p with
      | mapping => cases hrecovered
      | _ => cases hp
  rw [List.filterMap_eq_flatMap_toList, flatMap_entriesAt hdepth,
    h.map_entriesAt_inside (by omega) fun _ hp => depth_of_mem_parts hp, List.flatMap_assoc,
    List.flatMap_congr hmappings, ← List.flatMap_map Prod.fst, map_entriesAt_mappings h, domainNodes_eq]

end

/-- Every link that is followed belongs to a domain node that is neither filtered out nor dropped. -/
theorem countP_isLink (hrun : engine.execute seed document = .ok report)
    (h : Completes (engine.parts document) (engine.start seed) entries t) :
    entries.countP (fun e => e.1.isLink) =
      ((entries.filter fun e => e.1.isDomain && !e.1.isFiltered && e.cause?.isNone).map fun e =>
        e.1.followed).sum := by
  have hlinks : entries.countP (fun e => e.1.isLink) = (entriesAt 2 entries).length := by
    rw [entriesAt, ← List.countP_eq_length_filter]
    refine List.countP_congr fun e _ => ?_
    obtain ⟨p, s⟩ := e
    cases p <;> simp [Part.isLink, Part.depth]
  have hdomains : entries.filter (fun e => e.1.isDomain && !e.1.isFiltered && e.cause?.isNone) =
      (entriesAt 3 entries).filter fun e => !e.1.isFiltered && e.cause?.isNone := by
    rw [entriesAt, List.filter_filter]
    refine List.filter_congr fun e _ => ?_
    obtain ⟨p, s⟩ := e
    cases p <;> simp [Part.isDomain, Part.depth]
  have hopened : ∀ e ∈ entriesAt 3 entries, e.opened.length =
      if !e.1.isFiltered && e.cause?.isNone then e.1.followed else 0 := by
    rintro ⟨p, s⟩ he
    obtain ⟨he, hp⟩ := List.mem_filter.1 he
    have hdomain : p.isDomain = true := by cases p <;> simp_all [Part.isDomain, Part.depth]
    exact length_opened hrun (h.mem_iff.1 he) hdomain
  rw [hlinks, hdomains, ← sum_filter hopened, ← List.length_flatMap,
    ← h.map_entriesAt_inside (by omega) fun _ hp => depth_of_mem_parts hp, List.length_map]

/-! ## Diagnostics -/

/-- Only domain nodes are reported without a link. -/
theorem isNone_of_reported {e : Entry} (he : engine.Enters seed document e.1 e.2) :
    (e.reported?.map fun d => d.place.link?.isNone).getD false = (e.1.isDomain && e.cause?.isSome) := by
  obtain ⟨p, s⟩ := e
  rw [Entry.reported?]
  rcases hcause : Entry.cause? (p, s) with _ | cause
  · simp
  have hdrops : ∃ t, engine.Drops seed document p cause s t := by
    rw [Entry.cause?] at hcause
    split at hcause
    next hdropped =>
      cases hcause
      exact ⟨_, he, Prod.ext hdropped rfl⟩
    next => cases hcause
  obtain ⟨t, hdrops⟩ := hdrops
  have hunit := hdrops.isUnit
  cases p with
  | mapping => exact hunit.elim
  | domain => simp_all [Part.IsUnit, Part.diagnostic, Part.isDomain]
  | link => simp_all [Part.IsUnit, Part.diagnostic, Part.isDomain]
  | path => simp_all [Part.IsUnit, Part.diagnostic, Part.isDomain]
  | range => simp_all [Part.IsUnit, Part.diagnostic, Part.isDomain]

theorem mapping_of_reported {e : Entry} {d : Diagnostic} (h : e.reported? = some d) :
    d.place.mapping = e.1.number := by
  obtain ⟨cause, -, rfl⟩ := Option.map_eq_some_iff.1 h
  obtain ⟨p, s⟩ := e
  cases p <;> rfl

/-- A diagnostic names a mapping and a link that are not skipped. -/
theorem named_of_drops {cause : DropCause} (h : engine.Drops seed document p cause s t) :
    ∃ k m, (p.diagnostic cause).place.mapping = k + 1 ∧ engine.mapping.mappings[k]? = some m ∧
      m.skip = false ∧ ∀ i ∈ (p.diagnostic cause).place.link?, ∃ j l, i = j + 1 ∧ m.links[j]? = some l ∧
        l.skip = false := by
  have linked {place : Place} {m : Mapping} {l : Link} (hplace : engine.NumbersLink place m l)
      (hm : m.skip = false) (hl : l.skip = false) : ∃ k m, place.mapping = k + 1 ∧
        engine.mapping.mappings[k]? = some m ∧ m.skip = false ∧
          ∀ i ∈ place.link?, ∃ j l, i = j + 1 ∧ m.links[j]? = some l ∧ l.skip = false := by
    obtain ⟨⟨k, hk, hmk⟩, ⟨j, hj, hlj⟩⟩ := hplace
    refine ⟨k, m, hk, hmk, hm, fun i hi => ⟨j, l, ?_, hlj, hl⟩⟩
    exact Option.some.inj ((Option.mem_def.1 hi).symm.trans hj)
  have hp := h.entered
  cases p with
  | mapping => exact h.isUnit.elim
  | domain scene place m mappingGraph? node position =>
    obtain ⟨hnone, k, hk, hm⟩ := place_of_enters_domain hp
    obtain ⟨-, ⟨-, hskip⟩, -⟩ := Part.occursIn_of_enters hp
    refine ⟨k, m, hk, hm, hskip, fun i hi => ?_⟩
    cases (Option.mem_def.1 hi).symm.trans hnone
  | link =>
    obtain ⟨-, ⟨-, hm⟩, -, -, hl⟩ := Part.occursIn_of_enters hp
    exact linked (numbersLink_of_enters hp) hm hl
  | path =>
    have hof := isOf_of_enters_path hp
    exact linked (numbersLink_of_enters_path hp) hof.mapping_kept hof.link_kept
  | range =>
    have hof := isOf_of_enters_range hp
    exact linked (numbersLink_of_enters_range hp) hof.mapping_kept hof.link_kept

/-! ## Whole runs -/

/-- People who have a name are mapped unless they are hidden, each with a home and a place of work. -/
def peopleEngine : Engine :=
  let text (expression : String) : Entity :=
    ⟨["<urn:Text>"], some ⟨"Literal", [⟨"text", .xpath, expression, none⟩]⟩, [], [], none, none⟩
  let person : Entity :=
    ⟨["<urn:Person>"], some ⟨"UUID", []⟩, [], [⟨"<urn:name>", text "@name"⟩], none, none⟩
  let link (child : String) (skip : Bool) : Link :=
    ⟨⟨[child], []⟩, ⟨none, ["<urn:" ++ child ++ ">"], []⟩, ⟨child ++ "/.", ⟨text ".", none⟩⟩, none, skip⟩
  let mapping (child : String) (skip : Bool) : Mapping :=
    ⟨⟨"/people/" ++ child, ⟨person, some (.not (.exists "@hidden"))⟩, none⟩,
      [link "home" true, link "home" false, link "work" false], none, skip⟩
  ⟨⟨.builtin, [mapping "resident" true, mapping "visitor" false, mapping "stranger" false,
    mapping "resident" false]⟩, .empty, none, { Settings.default with uuidWidth? := some 2 }⟩

/-- A visitor who is hidden, a stranger without a name, and a resident without a place of work. -/
def peopleDocument : Xml.Document :=
  let element (name : String) (attributes : List Xml.Attribute) (content : List Xml.Content) : Xml.Content :=
    .element ⟨none, name⟩ [] attributes content
  ⟨[element "people" [] [element "visitor" [⟨⟨none, "hidden"⟩, "yes"⟩] [], element "stranger" [] [],
    element "resident" [⟨⟨none, "name"⟩, "Ada"⟩]
      [element "home" [] [.text "London"], element "work" [] []]]]⟩

end Engine

end Crosswalk
