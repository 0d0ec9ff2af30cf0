import Crosswalk.Proofs.Batches

/-!
# What an opening may change

The opening of a part resolves entities, counts, and writes; the openings of links that join keep indexes
as well. Whatever relation allows for each of these allows for all openings, so that what no opening can
touch does not have to be followed through them. And what an opening writes it writes in one batch,
after all that can go wrong but the batch itself: an opening that fails has written nothing.
-/

namespace Crosswalk.Run

open Crosswalk.Xml (Location)

/-- A relation allows for all that openings do, except for the indexes of joins. -/
structure Allows (R : RunState → RunState → Prop) : Prop where
  reads : ∀ {s t}, Reads 0 s t → R s t
  counted : ∀ s counters, R s { s with counters := counters }
  written : ∀ s graph contexts, R s { s with graph := graph, contexts := contexts }

/-- The part follows a link that joins. -/
def Part.Joins : Part → Prop
  | .link _ _ _ _ _ _ l => l.target.isMerge = false ∧ l.source.isJoin = true
  | _ => False

/-- Something that a relation allows for, but no writing. -/
structure Quiet (R : RunState → RunState → Prop) (s t : RunState) : Prop where
  allowed : R s t
  graph_eq : t.graph = s.graph

/-- A step changes what a relation allows for, and if it fails it has written nothing. -/
structure AllOrNothing (R : RunState → RunState → Prop) {α : Type} (m : Run α) (s : RunState) :
    Prop where
  moves : R s (after m s)
  graph_eq : ∀ e t, outcome m s = (.error e, t) → t.graph = s.graph

section

variable {R : RunState → RunState → Prop} {α β : Type} {m : Run α} {f : α → Run β}
  {P : α → RunState → Prop} {s t : RunState} {n : Nat}

namespace AllOrNothing

theorem of_meets (h : Meets (Quiet R) P m s) : AllOrNothing R m s :=
  ⟨h.1.allowed, fun _ _ he => after_eq he ▸ h.1.graph_eq⟩

variable [IsPreorder RunState R]

instance : IsPreorder RunState (Quiet R) where
  refl s := ⟨refl s, rfl⟩
  trans _ _ _ h h' := ⟨IsTrans.trans _ _ _ h.allowed h'.allowed, h'.graph_eq.trans h.graph_eq⟩

theorem fault {e : Fault} (h : outcome m s = (.error e, s)) : AllOrNothing R m s :=
  of_meets (P := fun _ _ => True) (.fault h)

theorem bind (hm : Meets (Quiet R) P m s) (hf : ∀ a t, P a t → AllOrNothing R (f a) t) :
    AllOrNothing R (m >>= f) s := by
  refine ⟨rel_bind hm.1.allowed fun a t ha => (hf a t (hm.2 a t ha)).moves, fun e u h => ?_⟩
  rcases bind_error.1 h with h | ⟨a, t, ha, h⟩
  · exact after_eq h ▸ hm.1.graph_eq
  · have hq : Quiet R s t := after_eq ha ▸ hm.1
    exact ((hf a t (hm.2 a t ha)).graph_eq e u h).trans hq.graph_eq

/-- What cannot fail may follow a step that has written something. -/
theorem followed (hm : AllOrNothing R m s)
    (hf : ∀ a t, ∃ b u, outcome (f a) t = (.ok b, u) ∧ R t u) : AllOrNothing R (m >>= f) s := by
  refine ⟨rel_bind hm.moves fun a t _ => ?_, fun e v h => ?_⟩
  · obtain ⟨b, u, hu, htu⟩ := hf a t
    exact after_eq hu ▸ htu
  · rcases bind_error.1 h with h | ⟨a, t, ha, h⟩
    · exact hm.graph_eq e v h
    · obtain ⟨b, u, hu, -⟩ := hf a t
      cases hu.symm.trans h

end AllOrNothing

variable (hR : Allows R)

include hR

theorem Allows.quiet (h : Reads 0 s t) : Quiet R s t :=
  ⟨hR.reads h, h.graph_eq⟩

theorem count_quiet (g : Counters → Counters) : Moves (Quiet R) (count g) :=
  .modify fun s => ⟨hR.counted s _, rfl⟩

variable [IsPreorder RunState R]

theorem commit_allOrNothing (batch : Batch) (s : RunState) : AllOrNothing R (commit batch) s := by
  have hcommit := outcome_commit batch s
  rcases hadd : s.graph.add batch.statements with e | graph <;> rw [hadd] at hcommit
  · exact .fault hcommit
  · refine ⟨?_, fun e t h => ?_⟩
    · rw [after_eq hcommit]
      exact hR.written s graph _
    · cases hcommit.symm.trans h

/-! ## The openings -/

theorem openMapping_quiet (scene : Scene) (number : Nat) (m : Mapping) :
    Moves (Quiet R) (openMapping scene number m) :=
  .bind (namedGraph_moves scene none m.graph?) fun _ => .bind (.ofSetup _) fun _ =>
    .bind (count_quiet hR _) fun _ => .pure _

theorem gatherDomain_quiet (scene : Scene) (place : Place) (m : Mapping)
    (mappingGraph? : Option String) (node : Location) (position : Nat) :
    Moves (Quiet R) (gatherDomain scene place m mappingGraph? node position) := by
  intro s
  have hcleared : Moves (Quiet R) (modify fun s => { s with contexts := .empty }) :=
    .modify fun s => ⟨hR.written s s.graph .empty, rfl⟩
  refine rel_bind (hcleared s) fun _ t _ => ?_
  have hfresh := Context.isFresh_fresh .domain node position none
  refine rel_entered (hR.quiet (.single (.entered t _ hfresh)))
    (.bind (count_quiet hR _) fun _ => .pure _) ?_
  refine rel_bind (hR.quiet (resolveEntered_meets hfresh _ none t).1) fun resolved u _ => ?_
  split
  · refine rel_bind (hR.quiet (domainGraph_reads _ _ _ _ _ u)) fun g v _ => ?_
    exact Moves.bind (.of_after_eq fun s => after_eq (outcome_stage ..)) (fun _ => .pure _) v
  · exact Moves.drop _ u

theorem gatherLink_quiet (scene : Scene) (place : Place) (m : Mapping) (id : Nat)
    (domainGraph? : Option String) (l : Link)
    (hjoins : l.target.isMerge = false → l.source.isJoin = true →
      ∀ s joins, R s { s with joins := joins }) :
    Moves (Quiet R) (gatherLink scene place m id domainGraph? l) := by
  refine .bind (count_quiet hR _) fun _ => .bind (namedGraph_moves _ _ _) fun g => ?_
  refine .context_bind fun s => ?_
  split
  · exact Moves.bind (fun s => hR.quiet (gatherMerge_reads _ _ _ s)) (fun _ => .pure _) s
  next hmerge =>
    have hfollowed := openFollowed_moves (R := Quiet R)
      (l := ⟨scene, place, m, l, id, domainGraph?, g⟩)
      (fun hjoin s joins => ⟨hjoins (by simpa using hmerge) hjoin s joins, rfl⟩)
    exact Moves.bind (hfollowed _) (fun _ => .pure _) s

/-- What an opening does before it writes leaves the graph as it is. -/
theorem gather_quiet {p : Part} (hjoins : p.Joins → ∀ s joins, R s { s with joins := joins }) :
    Moves (Quiet R) p.gather := by
  cases p with
  | mapping scene number m => exact .bind (openMapping_quiet hR scene number m) fun _ => .pure _
  | domain scene place m mappingGraph? node position =>
    exact gatherDomain_quiet hR scene place m mappingGraph? node position
  | link scene place m node id domainGraph? l =>
    exact gatherLink_quiet hR scene place m id domainGraph? l fun h h' => hjoins ⟨h, h'⟩
  | path l joined node position =>
    exact .bind (fun s => hR.quiet (openPath_reads l joined node position s)) fun _ => .pure _
  | range l path ids node position =>
    exact .bind (fun s => hR.quiet (gatherRange_reads l path ids node position s)) fun _ => .pure _

theorem writeGathered_allOrNothing (batch? : Option Batch) (s : RunState) :
    AllOrNothing R (writeGathered batch?) s := by
  cases batch? with
  | none => exact .of_meets ((Moves.pure ()).meets s)
  | some batch =>
    refine .followed (commit_allOrNothing hR batch s) fun _ t => ?_
    exact ⟨(), _, rfl, hR.counted t _⟩

theorem write_allOrNothing (p : Part) (batch? : Option Batch) (s : RunState) :
    AllOrNothing R (p.write batch?) s := by
  cases p with
  | domain =>
    cases batch? with
    | none => exact .of_meets ((Moves.pure ()).meets s)
    | some batch => exact commit_allOrNothing hR batch s
  | _ => exact writeGathered_allOrNothing hR batch? s

theorem opening_allOrNothing {p : Part} (hjoins : p.Joins → ∀ s joins, R s { s with joins := joins })
    (s : RunState) : AllOrNothing R p.opening s := by
  rw [p.opening_eq]
  refine .bind ((gather_quiet hR hjoins).meets s) fun gathered t _ => ?_
  exact .followed (write_allOrNothing hR p gathered.batch? t) fun _ u => ⟨_, u, rfl, refl u⟩

end

end Crosswalk.Run
