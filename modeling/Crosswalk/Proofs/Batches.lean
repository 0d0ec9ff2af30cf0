import Crosswalk.Proofs.Parts
import Crosswalk.Proofs.Writing

/-!
# One batch for each opening

An opening writes at most once, and last: it first gathers a batch and the parts that it leaves,
`Part.gather`, and then writes what it has gathered, `Part.write`. `Part.opening_eq` puts the two together,
so what a run can write at all is what some part of it has gathered.
-/

namespace Crosswalk.Run

open Crosswalk.Xml (Location)

/-- What an opening has made before it writes anything. -/
structure Gathered where
  batch? : Option Batch
  parts : List Part

def gatherDomain (scene : Scene) (place : Place) (m : Mapping) (mappingGraph? : Option String)
    (node : Location) (position : Nat) : Run Gathered := do
  modify fun s => { s with contexts := .empty }
  let domain ← enter (.fresh .domain node position none)
  if ← discards scene m.domain.target.condition? node then do
    count fun c => { c with domainsFiltered := c.domainsFiltered + 1 }
    return ⟨none, []⟩
  else
    let resolved ← resolve scene place m.domain.target.entity domain
    if resolved.value.isUri then do
      let graph? ← domainGraph scene m mappingGraph? node position
      let batch ← stage .empty domain graph?
      return ⟨some batch, Part.links scene place m node domain graph? 1 m.links⟩
    else drop (.domainNotUri resolved.value.kind)

/-- Resolves a range that is merged into its domain and gathers its description, if it is to be linked. -/
def gatherMerge (l : LinkSetting) (node : Location) (position : Nat) : Run (Option Batch) := do
  let path ← enter (.fresh .path node position (some l.domain))
  if ← discards l.scene l.link.target.condition? node then return none
  else
    let range ← enter (.fresh .range node position (some path))
    if ← discards l.scene l.link.range.target.condition? node then return none
    else
      match ← resolvedValue? l.domain with
      | none => return none
      | some identity =>
        let _ ← resolveWith l.scene l.place range (some identity) l.link.range.target.entity
        let batch ← stage .empty range l.linkGraph?
        return some batch

def gatherLink (scene : Scene) (place : Place) (m : Mapping) (domain : Nat)
    (domainGraph? : Option String) (link : Link) : Run Gathered := do
  count fun c => { c with linksAttempted := c.linksAttempted + 1 }
  let linkGraph? ← namedGraph scene domainGraph? link.graph?
  let l : LinkSetting := ⟨scene, place, m, link, domain, domainGraph?, linkGraph?⟩
  let c ← context domain
  if link.target.isMerge then do
    let batch? ← gatherMerge l c.node c.position
    return ⟨batch?, []⟩
  else do
    let parts ← openFollowed l c.node
    return ⟨none, parts⟩

/-- Resolves a range and gathers all that is to be written for it, if it is to be linked. -/
def gatherRange (l : LinkSetting) (path : Nat) (intermediates : List Nat) (node : Location)
    (position : Nat) : Run (Option Batch) := do
  let range ← enter (.fresh .range node position (some path))
  if ← discards l.scene l.link.range.target.condition? node then return none
  else
    let resolved ← resolve l.scene l.place l.link.range.target.entity range
    match ← resolvedValue? l.domain with
    | none => return none
    | some domainValue =>
      let properties ← expandAll l.scene l.link.target.relationships
      let batch ← stage .empty l.domain l.domainGraph?
      let batch ← stageAll batch l.linkGraph? intermediates
      let values ← intermediates.mapM resolvedValue?
      let statements :=
        chainStatements l.linkGraph? domainValue.text properties values resolved.value
      let batch ← stage { batch with statements := batch.statements ++ statements }
        range l.linkGraph?
      return some batch

/-- Writes what was gathered for a range. -/
def writeGathered : Option Batch → Run Unit
  | none => return
  | some batch => do
    commit batch
    count fun c => { c with rangesLinked := c.rangesLinked + 1 }

theorem linkMerge_eq (l : LinkSetting) (node : Location) (position : Nat) :
    linkMerge l node position = gatherMerge l node position >>= writeGathered := by
  rw [linkMerge, gatherMerge, bind_assoc]
  congr 1
  funext path
  rw [bind_assoc]
  congr 1
  funext discarded
  rw [ite_bind]
  split
  · rfl
  rw [bind_assoc]
  congr 1
  funext range
  rw [bind_assoc]
  congr 1
  funext discarded
  rw [ite_bind]
  split
  · rfl
  rw [bind_assoc]
  congr 1
  funext value?
  split
  · rfl
  · simp only [Run.link, bind_assoc, pure_bind]
    rfl

theorem linkRange_eq (l : LinkSetting) (path : Nat) (ids : List Nat) (node : Location)
    (position : Nat) :
    linkRange l path ids node position = gatherRange l path ids node position >>= writeGathered := by
  rw [linkRange, gatherRange, bind_assoc]
  congr 1
  funext range
  rw [bind_assoc]
  congr 1
  funext discarded
  rw [ite_bind]
  split
  · rfl
  rw [bind_assoc]
  congr 1
  funext resolved
  rw [bind_assoc]
  congr 1
  funext value?
  split
  · rfl
  · simp only [bind_assoc, pure_bind]
    rfl

namespace Part

/-- All that an opening does before it writes. -/
def gather : Part → Run Gathered
  | mapping scene number m => do
    let parts ← openMapping scene number m
    return ⟨none, parts⟩
  | domain scene place m mappingGraph? node position =>
    gatherDomain scene place m mappingGraph? node position
  | link scene place m _ id domainGraph? l => gatherLink scene place m id domainGraph? l
  | path l joined node position => do
    let parts ← openPath l joined node position
    return ⟨none, parts⟩
  | range l id ids node position => do
    let batch? ← gatherRange l id ids node position
    return ⟨batch?, []⟩

/-- Writes what a part has gathered. Only what a link leads to counts as linked. -/
def write : Part → Option Batch → Run Unit
  | domain .., some batch => commit batch
  | domain .., none => return
  | _, batch? => writeGathered batch?

/-- An opening gathers, and then writes what it has gathered. -/
theorem opening_eq (p : Part) : p.opening = (do
    let gathered ← p.gather
    p.write gathered.batch?
    return gathered.parts) := by
  cases p with
  | mapping => simp only [opening, gather, bind_assoc, pure_bind, write, writeGathered, bind_pure]
  | domain =>
    simp only [opening, gather, openDomain, gatherDomain, Run.link, bind_assoc, ite_bind, pure_bind,
      drop_bind, write]
  | link =>
    simp only [opening, gather, openLink, gatherLink, linkMerge_eq, bind_assoc, ite_bind, pure_bind, write,
      writeGathered, bind_pure]
  | path => simp only [opening, gather, bind_assoc, pure_bind, write, writeGathered, bind_pure]
  | range => simp only [opening, gather, linkRange_eq, bind_assoc, pure_bind, write]

theorem opening_ok {p : Part} {parts : List Part} {s t : RunState}
    (h : outcome p.opening s = (.ok parts, t)) :
    ∃ gathered u, outcome p.gather s = (.ok gathered, u) ∧
      outcome (p.write gathered.batch?) u = (.ok (), t) ∧ parts = gathered.parts := by
  rw [p.opening_eq] at h
  obtain ⟨gathered, u, hgathered, h⟩ := bind_ok.1 h
  obtain ⟨⟨⟩, v, hwritten, h⟩ := bind_ok.1 h
  cases h
  exact ⟨gathered, u, hgathered, hwritten, rfl⟩

end Part

/-! ## What is read before anything is written -/

theorem gatherMerge_reads (l : LinkSetting) (node : Location) (position : Nat) (s : RunState) :
    Reads 0 s (after (gatherMerge l node position) s) := by
  have hpath := Context.isFresh_fresh .path node position (some l.domain)
  refine rel_entered (.single (.entered s _ hpath)) (.pure _) ?_
  have hrange := Context.isFresh_fresh .range node position (some s.contexts.size)
  refine rel_entered (.single (.entered _ _ hrange)) (.pure _) ?_
  refine rel_bind (Moves.of_after_eq (fun _ => rfl) _) fun identity? t h => ?_
  rw [outcome_resolvedValue?] at h
  cases h
  split
  · exact Moves.pure _ _
  refine rel_bind (resolveEntered_meets hrange _ _ _).1 fun _ u _ => ?_
  exact Moves.bind (.of_after_eq fun s => after_eq (outcome_stage ..)) (fun _ => .pure _) u

theorem openPath_reads (l : LinkSetting) (joined : Bool) (node : Location) (position : Nat) (s : RunState) :
    Reads 0 s (after (openPath l joined node position) s) := by
  have hpath := Context.isFresh_fresh .path node position (some l.domain)
  refine rel_entered (.single (.entered s _ hpath)) (.pure _) ?_
  refine rel_bind (intermediates_meets l _ node position 0 _ _).1 fun ids t _ => ?_
  split
  · exact Moves.pure _ t
  · exact Moves.bind (.ofSetup _) (fun _ => .pure _) t

theorem gatherRange_reads (l : LinkSetting) (path : Nat) (ids : List Nat) (node : Location)
    (position : Nat) (s : RunState) :
    Reads 0 s (after (gatherRange l path ids node position) s) := by
  have hrange := Context.isFresh_fresh .range node position (some path)
  refine rel_entered (.single (.entered s _ hrange)) (.pure _) ?_
  refine rel_bind (resolveEntered_meets hrange _ none s).1 fun r t _ => ?_
  refine Moves.bind (.of_after_eq fun _ => rfl) (fun value? => ?_) t
  split
  · exact .pure _
  refine .bind (.ofSetup _) fun properties => ?_
  refine .bind (.of_after_eq fun s => after_eq (outcome_stage ..)) fun batch => ?_
  refine .bind (.of_after_eq fun s => after_eq (outcome_stageAll ..)) fun batch => ?_
  refine .bind (.of_after_eq fun s => after_eq (outcome_resolvedValues ids s)) fun values => ?_
  exact .bind (.of_after_eq fun s => after_eq (outcome_stage ..)) fun batch => .pure _

end Crosswalk.Run
