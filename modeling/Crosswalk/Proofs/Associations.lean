import Crosswalk.Proofs.Growing
import Crosswalk.Proofs.LaterStates

/-!
# Where associations come from

A value is associated with a node as soon as an entity has got it there: before its labels are made, before
anything that is attached to it is resolved, and long before anything is written. So the associations of a run
tell of every entity that got a value, and of nothing else. Nothing else in a run touches them, which is why
it is enough to follow the entities that its parts take up.
-/

namespace Crosswalk

open Crosswalk.Xml (Location)

namespace Run

variable {s t : RunState} {p : Part} {x y : Resolution} {value : Value}

/-- The path of the node of an entity, and a value that the entity has got there. -/
def Resolution.association (x : Resolution) (value : Value) : Association :=
  ⟨x.scene.source.path x.context.node, value.text⟩

/-- An entity with a type gets a value. -/
structure Resolution.Gets (x : Resolution) (value : Value) : Prop where
  typed : x.entity.types.isEmpty = false
  valued : ∃ types t, outcome x.valued x.state = (.ok (types, value), t)

/-- An entity is taken up by a part, or hangs off one that is. -/
inductive Part.TakesUp (p : Part) (s : RunState) : Resolution → Prop
  | own {x : Resolution} (h : p.Takes s x) : TakesUp p s x
  | attached {x y : Resolution} (h : p.TakesUp s x) (typed : x.entity.types.isEmpty = false)
      (attaches : x.Attaches y) : TakesUp p s y

theorem Part.TakesUp.exists_takes (h : p.TakesUp s y) : ∃ x, p.Takes s x ∧ x.Reaches y := by
  induction h with
  | own h => exact ⟨_, h, .refl⟩
  | attached _ _ attaches ih =>
    obtain ⟨x, hx, hy⟩ := ih
    exact ⟨x, hx, hy.tail attaches⟩

/-! ## Steps that associate nothing -/

/-- The associations stay the same. -/
def SameAssociations (s t : RunState) : Prop :=
  t.associations = s.associations

instance : IsPreorder RunState SameAssociations where
  refl _ := rfl
  trans _ _ _ h h' := h'.trans h

/-- A relation that only looks at the associations carries everything else. -/
theorem carries_of_sameAssociations {R : RunState → RunState → Prop}
    (h : ∀ s t, SameAssociations s t → R s t) : Carries R where
  generated scene call node position s := by
    obtain ⟨uuids, hu⟩ := after_generate scene call node position s
    rw [hu]
    exact h _ _ rfl
  entered _ _ _ := h _ _ rfl
  noted _ _ _ _ := h _ _ rfl
  committed batch s := by
    rw [after, outcome_commit]
    split <;> exact h _ _ rfl
  counted _ _ := h _ _ rfl
  joined _ _ := h _ _ rfl
  reported _ _ := h _ _ rfl

theorem carries_sameAssociations : Carries SameAssociations :=
  carries_of_sameAssociations fun _ _ => id

/-- The value of an entity is found, or generated and noted, and not associated yet. -/
theorem entityValue_sameAssociations (scene : Scene) (place : Place) (entity : Entity) (id : Nat)
    (types : List String) : Moves SameAssociations (entityValue scene place entity id types) := by
  have hfirst (name : String) (c : Context) :
      Moves SameAssociations (firstValue scene entity.generator? c name) :=
    firstValue_moves (fun _ _ => rfl) entity.generator? c name
  rw [entityValue]
  split
  · exact Moves.composes.globalValue .get (hfirst _) (fun _ => .modify fun _ => rfl) id
  · exact Moves.composes.variableValue .get (hfirst _) fun _ => .modify fun _ => rfl
  · exact Moves.composes.keyedValue .get (fun _ => .throw _)
      (fun call _ => carries_sameAssociations.generated scene call) (fun _ _ => .modify fun _ => rfl)
      place id types

theorem associations_valued (x : Resolution) :
    (after x.valued x.state).associations = x.state.associations := by
  refine Moves.bind (R := SameAssociations) (.ofSetup _) (fun types => .bind ?_ fun _ => .pure _) x.state
  cases x.identity? with
  | some identity => exact .pure identity
  | none => exact .bind (entityValue_sameAssociations _ _ _ _ types) fun _ => .ofSetup _

/-! ## Entities -/

/-- Whatever is newly associated is of some kind. -/
def AssociatesOnly (P : Association → Prop) (s t : RunState) : Prop :=
  ∀ a ∈ t.associations.pairs, a ∈ s.associations.pairs ∨ P a

variable {P : Association → Prop}

instance : IsPreorder RunState (AssociatesOnly P) where
  refl _ _ := .inl
  trans _ _ _ h h' a ha := (h' a ha).elim (h a) .inr

theorem SameAssociations.associatesOnly (h : SameAssociations s t) : AssociatesOnly P s t :=
  fun _ ha => .inl (h ▸ ha)

theorem carries_associatesOnly : Carries (AssociatesOnly P) :=
  carries_of_sameAssociations fun _ _ => SameAssociations.associatesOnly

/-- The value of an entity is associated with its node, and nothing else is along with it. -/
theorem labelled_associatesOnly (h : P (x.association value)) :
    AssociatesOnly P s (after (x.labelled value) s) := by
  refine rel_bind (fun a ha => ?_) fun _ t _ => ?_
  · exact (AssociationTable.mem_record.1 ha).elim (fun heq => .inr (heq ▸ h)) .inl
  · split
    · exact labels_moves carries_associatesOnly _ _ _ t
    · exact Moves.pure _ t

/-- A resolution associates what the entities get that it takes up. -/
theorem run_associatesOnly {Q : Resolution → Prop} (hx : x.IsNew) (h : Q x)
    (attaches : ∀ x y, Q x → x.entity.types.isEmpty = false → x.Attaches y → Q y)
    (gets : ∀ x value, Q x → x.Gets value → P (x.association value)) :
    AssociatesOnly P x.state (after x.run x.state) :=
  Resolution.run_moves_along carries_associatesOnly hx h attaches
    (fun x _ _ => SameAssociations.associatesOnly (associations_valued x))
    fun x v s h typed hvalued => labelled_associatesOnly (gets x v.2 h ⟨typed, v.1, s, hvalued⟩)

/-! ## Parts -/

section

variable {R : RunState → RunState → Prop} [IsPreorder RunState R]

/-- Where a condition does not hold, only that is done which is done after a node was left out. -/
theorem discards_moves_of {α : Type} {scene : Scene} {condition? : Option Condition} {node : Location}
    {f : Bool → Run α} (h : Condition.guardFails scene.conditionSetting node condition? ≠ .ok false)
    (hf : Moves R (f true)) : Moves R (discards scene condition? node >>= f) := by
  refine fun s => rel_bind (Moves.discards _ _ _ s) fun b t hb => ?_
  obtain ⟨hguard, rfl⟩ := discards_ok.1 hb
  cases b with
  | false => exact absurd hguard h
  | true => exact hf _

variable (entered : ∀ s c, c.IsFresh → R s (s.enter c))
  (counted : ∀ s counters, R s { s with counters := counters })
  (joined : ∀ s joins, R s { s with joins := joins })

include entered

theorem linkMerge_moves_of {l : LinkSetting} {node : Location} {position : Nat}
    (h : ¬∀ target ∈ [l.link.target.condition?, l.link.range.target.condition?],
      Condition.guardFails l.scene.conditionSetting node target = .ok false) :
    Moves R (linkMerge l node position) := by
  have hentered (role : Role) (parent? : Option Nat) : Moves R (enter (.fresh role node position parent?)) :=
    fun s => entered s _ (Context.isFresh_fresh ..)
  refine .bind (hentered _ _) fun path => ?_
  by_cases hpath : Condition.guardFails l.scene.conditionSetting node l.link.target.condition? = .ok false
  · refine .bind (.discards _ _ _) fun b => ?_
    split
    · exact .pure _
    exact .bind (hentered _ _) fun range =>
      discards_moves_of (fun hrange => h (by simp [hpath, hrange])) (.pure _)
  · exact discards_moves_of hpath (.pure _)

include counted joined

/-- A part that does not come to its entities only enters contexts, counts and looks for nodes. -/
theorem opening_rel_of_not_passes (cleared : p.depth = 3 → R s { s with contexts := .empty })
    (h : ¬p.Passes s) : R s (after p.opening s) := by
  have hcount (g : Counters → Counters) : Moves R (count g) := fun s => counted s _
  have hentered (role : Role) (node : Location) (position : Nat) (parent? : Option Nat) :
      Moves R (enter (.fresh role node position parent?)) :=
    fun s => entered s _ (Context.isFresh_fresh ..)
  cases p with
  | mapping => exact absurd trivial h
  | domain scene place m mappingGraph? node position =>
    refine rel_bind (cleared rfl) fun _ t₁ _ => rel_bind (hentered _ _ _ _ t₁) fun id t₂ _ => ?_
    exact discards_moves_of h (.bind (hcount _) fun _ => .pure _) t₂
  | link scene place m node id domainGraph? l =>
    refine rel_bind (hcount _ s) fun _ t h₁ => ?_
    cases h₁
    refine rel_bind (namedGraph_moves _ _ _ _) fun graph? t h₂ => ?_
    obtain ⟨rfl, hgraph⟩ := namedGraph_ok h₂
    refine rel_bind (Moves.of_after_eq (fun _ => rfl) _) fun c t h₃ => ?_
    rw [outcome_context] at h₃
    cases h₃
    split
    next =>
      have hconditions := fun hall => h ⟨⟨graph?, hgraph⟩, hall⟩
      exact Moves.bind (linkMerge_moves_of entered hconditions) (fun _ => .pure _) _
    next => exact openFollowed_moves (fun _ => joined) _ _
  | path l joined node position =>
    refine rel_bind (hentered _ _ _ _ s) fun path t _ => ?_
    exact discards_moves_of h (.pure []) t
  | range l path ids node position =>
    refine rel_bind (rel_bind (hentered _ _ _ _ s) fun range t _ => ?_) fun _ t _ => Moves.pure _ t
    exact discards_moves_of h (.pure ()) t

end

/-- An opening associates what the entities get that it takes up. -/
theorem opening_associatesOnly (h : ∀ y value, p.TakesUp s y → y.Gets value → P (y.association value)) :
    AssociatesOnly P s (after p.opening s) := by
  by_cases hpass : p.Passes s
  · refine opening_moves_of carries_associatesOnly (fun _ _ => .inl) fun x hx => ?_
    exact run_associatesOnly (Q := p.TakesUp s) hx.isNew (.own ⟨hx, hpass⟩) (fun _ _ => .attached) h
  · have hR := carries_associatesOnly (P := P)
    exact opening_rel_of_not_passes hR.entered hR.counted hR.joined (fun _ _ => .inl) hpass

/-! ## What is kept -/

/-- What was associated stays so, and what was written is not taken back. -/
structure Accumulates (s t : RunState) : Prop where
  associations : s.associations.pairs ⊆ t.associations.pairs
  graph : s.graph.quads ⊆ t.graph.quads

instance : IsPreorder RunState Accumulates where
  refl _ := ⟨fun _ => id, fun _ => id⟩
  trans _ _ _ h h' :=
    ⟨List.Subset.trans h.associations h'.associations, List.Subset.trans h.graph h'.graph⟩

theorem Reads.accumulates {n : Nat} (h : Reads n s t) : Accumulates s t := by
  refine ⟨?_, h.graph_eq ▸ List.Subset.refl _⟩
  induction h with
  | refl => exact List.Subset.refl _
  | tail _ change ih =>
    refine List.Subset.trans ih ?_
    cases change with
    | associated a => exact fun _ => AssociationTable.mem_record.2 ∘ .inr
    | _ => exact List.Subset.refl _

theorem respects_accumulates : Respects Accumulates where
  generated scene call node position s := (generate_reads (n := 0) call node position s).accumulates
  associated s a := Reads.accumulates (n := 0) (.single (.associated s a))
  entered s c h := Reads.accumulates (n := 0) (.single (.entered s c h))
  noted _ _ _ _ := ⟨List.Subset.refl _, List.Subset.refl _⟩
  committed batch s := by
    rw [after, outcome_commit]
    rcases hadd : s.graph.add batch.statements with e | graph
    · exact refl s
    · exact ⟨List.Subset.refl _, (Rdf.Graph.gains_of_add hadd).subset⟩
  counted _ _ := ⟨List.Subset.refl _, List.Subset.refl _⟩
  joined _ _ := ⟨List.Subset.refl _, List.Subset.refl _⟩
  reported _ _ := ⟨List.Subset.refl _, List.Subset.refl _⟩

theorem allows_accumulates (S : Stretch) : S.Allows Accumulates where
  respects := respects_accumulates
  reads := Reads.accumulates
  cleared _ _ := ⟨List.Subset.refl _, List.Subset.refl _⟩

end Run

namespace Engine

open Crosswalk.Run

variable {engine : Engine} {seed : List UInt8} {document : Xml.Document} {p : Part} {s : RunState}
  {a : Association}

/-! ## Whole runs -/

/-- What is associated in the end, some entity of the run got at its node. -/
theorem exists_gets_of_mem_associations (h : a ∈ (engine.final seed document).associations.pairs) :
    ∃ p s y value, engine.Enters seed document p s ∧ p.TakesUp s y ∧ y.Gets value ∧
      a = y.association value := by
  let P (a : Association) : Prop := ∃ p s y value, engine.Enters seed document p s ∧ p.TakesUp s y ∧
    y.Gets value ∧ a = y.association value
  have hkept : KeptAlong (AssociatesOnly P) (engine.parts document) (engine.start seed) :=
    ⟨fun q u hq => opening_associatesOnly fun y value hy hvalue => ⟨q, u, y, value, hq, hy, hvalue, rfl⟩,
      recover_moves carries_associatesOnly⟩
  rw [final_eq] at h
  rcases hkept.rel_runAll a h with hstart | hP
  · simp [start, RunState.initial, AssociationTable.empty] at hstart
  · exact hP

/-- What an opening has done is still there in the end. -/
theorem accumulates_opening (hp : engine.Enters seed document p s) :
    Accumulates (after p.opening s) (engine.final seed document) :=
  Stretch.Later.rel (allows_accumulates _) ((later_final_of_enters hp).head (.leaves hp))

end Engine

end Crosswalk
