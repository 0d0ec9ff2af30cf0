import Crosswalk.Proofs.Gathering
import Crosswalk.Proofs.RunNodes

/-!
# Growing states

As long as a run stays inside of one domain node, nothing is taken back: what was kept, resolved or written
is so from then on. A part inside of a domain node therefore still sees what the parts around it and
before it have done, and the lemmas here say where these were opened: the link of a path, the path
of a range, and the entity of the domain node.
-/

namespace Crosswalk

open Crosswalk.Xml (Location)

namespace Run

variable {s t : RunState}

/-! ## Growing states -/

/-- Nothing that was kept, resolved or written is taken back. -/
structure Grows (s t : RunState) : Prop where
  cache : KeptOn s t
  contexts : s.contexts.Extends t.contexts
  linked : ∀ id, (s.contexts.get id).linked = true → (t.contexts.get id).linked = true
  graph : s.graph.quads ⊆ t.graph.quads

instance : IsPreorder RunState Grows where
  refl s := ⟨refl s, .refl _, fun _ => id, fun _ => id⟩
  trans _ _ _ h h' := ⟨IsTrans.trans _ _ _ h.cache h'.cache, h.contexts.trans h'.contexts,
    fun id hid => h'.linked id (h.linked id hid), fun _ hq => h'.graph (h.graph hq)⟩

theorem Reads.grows {n : Nat} (h : Reads n s t) : Grows s t :=
  ⟨h.keptOn, h.extends, fun id hid => by rwa [h.linked_eq], by rw [h.graph_eq]; exact fun _ => id⟩

/-- A mark stays where more marks are set. -/
theorem linked_get_markLinked {cs : Contexts} {ids : List Nat} {id : Nat}
    (h : (cs.get id).linked = true) : ((cs.markLinked ids).get id).linked = true := by
  induction ids generalizing cs with
  | nil => exact h
  | cons other rest ih =>
    refine ih ?_
    by_cases hid : id = other
    · subst hid
      have hlt : id < cs.size := by
        by_contra hlt
        rw [Contexts.get_of_size_le (by omega)] at h
        cases h
      rw [Contexts.get_update_of_lt hlt]
    · rw [Contexts.get_update_of_ne hid, h]

theorem grows_of_written {batch : Batch} {graph : Rdf.Graph}
    (hadd : s.graph.add batch.statements = .ok graph) :
    Grows s { s with graph := graph, contexts := s.contexts.markLinked batch.contexts } :=
  ⟨fun _ _ hv => hv, Contexts.extends_markLinked _ _, fun _ => linked_get_markLinked,
    (Rdf.Graph.gains_of_add hadd).subset⟩

theorem respects_grows : Respects Grows where
  generated scene call node position s := (generate_reads (n := 0) call node position s).grows
  associated s a := Reads.grows (n := 0) (.single (.associated s a))
  entered s c h := Reads.grows (n := 0) (.single (.entered s c h))
  noted s id r h := by
    refine ⟨fun _ _ hv => hv, Contexts.extends_resolved r h, fun other hother => ?_, fun _ h => h⟩
    have hsame : ((s.contexts.update id fun c => { c with resolved? := some r }).get other).linked =
        (s.contexts.get other).linked := Contexts.get_update_congr (·.linked) fun _ => rfl
    exact hsame.trans hother
  committed batch s := by
    rw [after, outcome_commit]
    rcases hadd : s.graph.add batch.statements with e | graph
    · exact refl s
    · exact grows_of_written hadd
  counted _ _ := ⟨fun _ _ hv => hv, .refl _, fun _ => id, fun _ => id⟩
  joined _ _ := ⟨fun _ _ hv => hv, .refl _, fun _ => id, fun _ => id⟩
  reported _ _ := ⟨fun _ _ hv => hv, .refl _, fun _ => id, fun _ => id⟩

/-- Inside of a domain node states only grow. -/
def growing : Outline where
  entry _ _ := True
  change n s t := n ≤ 2 → Grows s t
  preorder _ :=
    { refl := fun s _ => refl s, trans := fun _ _ _ h h' hn => IsTrans.trans _ _ _ (h hn) (h' hn) }
  widen h hn := h (Nat.le_of_succ_le hn)
  opening {p s} _ := by
    refine ⟨fun hn => opening_moves respects_grows (fun h => by omega) fun x y _ _ => ?_,
      fun _ _ _ _ _ => trivial⟩
    exact (Resolution.valued_reads (n := 0) y y.state).grows
  reported _ _ _ _ := fun _ => ⟨fun _ _ hv => hv, .refl _, fun _ => id, fun _ => id⟩
  kept _ _ _ := trivial

theorem grows_of_guarded {p : Part} (hp : p.depth ≤ 2) (h : outcome p.guarded s = (.ok (), t)) :
    Grows s t := by
  have hgrows := growing.guarded_change_of (growing.run_change (p := p) (s := s) trivial) hp
  exact after_eq h ▸ hgrows

theorem grows_of_opening {p : Part} {parts : List Part} (hp : p.depth ≤ 2)
    (h : outcome p.opening s = (.ok parts, t)) : Grows s t :=
  after_eq h ▸ (growing.opening (p := p) (s := s) trivial).1 hp

/-- The parts beside one another that another part has opened. -/
theorem grows_of_leads {p q : Part} {parts : List Part} {u : RunState} (hq : q.depth ≤ 3)
    (hopened : outcome q.opening u = (.ok parts, s)) (h : Leads parts s p t) : Grows s t := by
  refine h.keeps (P := Grows s) (fun p hp v w hv hguarded => ?_) (refl s)
  have hdepth := (Part.opens_of_opening hopened hp).depth_eq
  exact IsTrans.trans _ _ _ hv (grows_of_guarded (by omega) hguarded)

end Run

namespace Engine

open Crosswalk.Run

variable {engine : Engine} {seed : List UInt8} {document : Xml.Document} {s : RunState}

/-! ## Where a part was opened -/

/-- A link is followed from a domain node whose entity has been resolved and written. -/
theorem domain_of_enters_link {scene : Scene} {place : Place} {m : Mapping} {node : Location}
    {id : Nat} {domainGraph? : Option String} {l : Link}
    (h : engine.Enters seed document (.link scene place m node id domainGraph? l) s) :
    ∃ position v d u w t,
      let x := Resolution.ofDomain scene { place with link? := none } m node position v
      engine.Resolves seed document x ∧ outcome x.run x.state = (.ok d, u) ∧ d.value.isUri ∧
        Reads 0 u w ∧ outcome (Run.link id domainGraph?) w = (.ok (), t) ∧ id = x.id ∧ Grows t s := by
  rcases opener_of_enters h with h | ⟨q, v, parts, t, hq, hopens, hopened, hleads⟩
  · cases h
  cases hopens with
  | link scene place m mappingGraph? node position k id domainGraph? l =>
    rcases openDomain_ok hopened with ⟨-, rfl, -⟩ | ⟨-, d, u, graph?, w, hd, huri, hgraph, hlink, rfl⟩
    · cases hleads.mem
    have hplace : place = { place with link? := none } := by
      rw [← (place_of_enters_domain hq).1]
    obtain ⟨_, _, _, -, ⟨⟩⟩ := Part.mem_links hleads.mem
    refine ⟨position, v, d, u, w, t, ?_, ?_, huri, (domainGraph_reads _ m _ node position).outcome hgraph,
      hlink, rfl, grows_of_leads (by simp [Part.depth]) hopened hleads⟩
    · exact ⟨_, v, _, hplace ▸ hq, .domain, .refl⟩
    · exact hplace ▸ hd

/-- A path is followed for a link, in a graph of its own or that of the domain. -/
theorem link_of_enters_path {l : LinkSetting} {joined : Bool} {node : Location} {position : Nat}
    (h : engine.Enters seed document (.path l joined node position) s) :
    ∃ domainNode v, engine.Enters seed document
        (.link l.scene l.place l.mapping domainNode l.domain l.domainGraph? l.link) v ∧
      (engine.scene document).NamesGraph l.domainGraph? l.link.graph? l.linkGraph? ∧ Grows v s := by
  rcases opener_of_enters h with h | ⟨q, v, parts, t, hq, hopens, hopened, hleads⟩
  · cases h
  cases hopens with
  | path scene place m domainNode id domainGraph? linkGraph? link hmerge =>
    refine ⟨domainNode, v, hq, ?_, IsTrans.trans _ _ _ (grows_of_opening (by simp [Part.depth]) hopened)
      (grows_of_leads (by simp [Part.depth]) hopened hleads)⟩
    obtain ⟨rfl, -⟩ := Part.occursIn_of_enters hq
    obtain ⟨graph?, hgraph, ⟨-, rfl, -⟩ | ⟨-, hfollowed⟩⟩ := openLink_ok hopened
    · cases hleads.mem
    · obtain ⟨_, _, heq⟩ := Part.eq_path_of_openFollowed hfollowed hleads.mem
      cases heq
      exact hgraph

/-- A range is reached by a path whose intermediate entities have been resolved. -/
theorem path_of_enters_range {l : LinkSetting} {path : Nat} {ids : List Nat} {node : Location}
    {position : Nat} (h : engine.Enters seed document (.range l path ids node position) s) :
    ∃ joined pathNode pathPosition v k nodes t,
      engine.Enters seed document (.path l joined pathNode pathPosition) v ∧ Grows v t ∧
      path = v.contexts.size ∧
      outcome (intermediates l v.contexts.size pathNode pathPosition 0 l.link.target.entities)
        (v.enter (.fresh .path pathNode pathPosition (some l.domain))) = (.ok ids, t) ∧
      Leads (Part.ranges l v.contexts.size ids k nodes) t (.range l path ids node position) s ∧
      Grows t s := by
  rcases opener_of_enters h with h | ⟨q, v, parts, t, hq, hopens, hopened, hleads⟩
  · cases h
  cases hopens with
  | range l joined pathNode pathPosition path ids node position =>
    have hv := grows_of_opening (by simp [Part.depth]) hopened
    have ht := grows_of_leads (by simp [Part.depth]) hopened hleads
    rcases openPath_ok hopened with rfl | ⟨_, k, nodes, hids, rfl, -⟩
    · cases hleads.mem
    obtain ⟨_, _, _, ⟨⟩⟩ := Part.mem_ranges hleads.mem
    exact ⟨joined, pathNode, pathPosition, v, k, nodes, t, hq, hv, rfl, hids, hleads, ht⟩

end Engine

end Crosswalk
