import Crosswalk.Proofs.ContinuedRanges
import Crosswalk.Proofs.RunNodes

/-!
# Ranges of a run

The ranges of a link that does not join are among those that its range selects when it is read as a
continuation of the relation at the domain node. So what is known of such readings is known of runs.
-/

namespace Crosswalk.Engine

open Crosswalk.Run
open Crosswalk.XPath
open Crosswalk.Xml (Location)

variable {engine : Engine} {seed : List UInt8} {document : Xml.Document} {s : RunState}
  {l : LinkSetting} {node : Location} {position : Nat}

theorem joined_eq_of_enters_path {joined : Bool}
    (h : engine.Enters seed document (.path l joined node position) s) :
    joined = l.link.source.isJoin := by
  rcases opener_of_enters h with h | ⟨q, v, parts, t, hq, hopens, -, -⟩
  · cases h
  cases hopens with
  | path => rfl

/-- A path that joins nothing stands at a node of the relation. -/
theorem exists_link_of_enters_path {joined : Bool}
    (h : engine.Enters seed document (.path l joined node position) s) (hjoined : joined = false) :
    ∃ domainNode v nodes,
      engine.Enters seed document
        (.link l.scene l.place l.mapping domainNode l.domain l.domainGraph? l.link) v ∧
      (engine.source document).select domainNode l.link.source.expression = .ok nodes ∧
      node ∈ nodes := by
  have hsource : l.scene.source = engine.source document :=
    congrArg Scene.source (isOf_of_enters_path h).scene_eq
  rcases opener_of_enters h with h | ⟨q, v, parts, t, hq, hopens, hopened, hleads⟩
  · cases h
  cases hopens with
  | path scene place m domainNode id domainGraph? linkGraph? link hmerge =>
    have hnode := (typedEntry_of_enters hq).2.2
    obtain ⟨graph?, -, ⟨-, rfl, -⟩ | ⟨-, hfollowed⟩⟩ := openLink_ok hopened
    · cases hleads.mem
    rw [hnode] at hfollowed
    obtain ⟨node', position', heq, ⟨hjoin, -⟩ | ⟨-, nodes, hnodes, hmem⟩⟩ :=
      mem_of_openFollowed hfollowed hleads.mem
    · rw [hjoined] at hjoin
      cases hjoin
    · cases heq
      exact ⟨domainNode, v, nodes, hq, hsource ▸ hnodes, hmem⟩

/-- A range that is not joined is reached by its link. -/
theorem exists_continued_of_enters_range {path : Nat} {ids : List Nat}
    (h : engine.Enters seed document (.range l path ids node position) s)
    (hjoin : l.link.source.isJoin = false) :
    ∃ domainNode v,
      engine.Enters seed document
        (.link l.scene l.place l.mapping domainNode l.domain l.domainGraph? l.link) v ∧
      ∀ reached, (engine.source document).continued domainNode l.link.source.expression
        l.link.range.sourceNode = .ok reached → node ∈ reached := by
  rcases opener_of_enters h with h | ⟨q, v, parts, t, hq, hopens, hopened, hleads⟩
  · cases h
  cases hopens with
  | range l joined pathNode pathPosition =>
    have hsource : l.scene.source = engine.source document :=
      congrArg Scene.source (isOf_of_enters_path hq).scene_eq
    obtain rfl := joined_eq_of_enters_path hq
    obtain ⟨domainNode, v', starts, hlink, hstarts, hstart⟩ := exists_link_of_enters_path hq hjoin
    refine ⟨domainNode, v', hlink, fun reached hreached => ?_⟩
    rcases openPath_ok hopened with rfl | ⟨_, _, nodes, -, rfl, ⟨hjoined, -⟩ | ⟨-, -, hnodes⟩⟩
    · cases hleads.mem
    · rw [hjoin] at hjoined
      cases hjoined
    · obtain ⟨_, n, hn, ⟨⟩⟩ := Part.mem_ranges hleads.mem
      rw [hsource] at hnodes
      exact (Source.mem_continued hreached hstarts).2
        ⟨pathNode, hstart, nodes, hnodes, List.mem_of_getElem? hn⟩

end Crosswalk.Engine
