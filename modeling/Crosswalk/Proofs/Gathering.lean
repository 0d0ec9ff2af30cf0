import Crosswalk.Proofs.Batches
import Crosswalk.Proofs.ClosedStatements
import Crosswalk.Proofs.Descriptions
import Crosswalk.Proofs.OpenedParts

/-!
# What a batch gathers

A batch takes up the descriptions of those contexts that do not count as written, and a context counts as
written when it was in a batch that was. So what a graph gains from a batch is told by the marks of
the contexts. The step of a range first gathers a batch, or finds that there is nothing to link, and then
writes what it has gathered.
-/

namespace Crosswalk

open Crosswalk.Rdf (Statement)
open Crosswalk.Xml (Location)

/-! ## Gains -/

namespace Rdf.Graph

variable {g h : Graph} {P Q : Statement → Prop}

/-- All of these statements are in the graph. -/
def Holds (g : Graph) (P : Statement → Prop) : Prop :=
  ∀ s, P s → ∃ q ∈ g.quads, s.quad = .ok q

/-- A graph with these statements added: they can all be placed, and nothing else is new. -/
structure Gains (g h : Graph) (P : Statement → Prop) : Prop where
  quad : ∀ s, P s → ∃ q, s.quad = .ok q
  mem_iff : ∀ q, q ∈ h.quads ↔ q ∈ g.quads ∨ ∃ s, P s ∧ s.quad = .ok q

theorem gains_of_add {statements : List Statement} (ok : g.add statements = .ok h) :
    g.Gains h (· ∈ statements) where
  quad s hs := by
    obtain ⟨q, -, hq⟩ := exists_quad_of_add ok hs
    exact ⟨q, hq⟩
  mem_iff q := by rw [mem_add ok, or_comm]

theorem Holds.mono (hg : g.Holds P) (hsub : g.quads ⊆ h.quads) : h.Holds P := by
  intro s hs
  obtain ⟨q, hq, hquad⟩ := hg s hs
  exact ⟨q, hsub hq, hquad⟩

theorem Gains.holds (hg : g.Gains h P) : h.Holds P := by
  intro s hs
  obtain ⟨q, hquad⟩ := hg.quad s hs
  exact ⟨q, (hg.mem_iff q).2 (.inr ⟨s, hs, hquad⟩), hquad⟩

theorem Gains.subset (hg : g.Gains h P) : g.quads ⊆ h.quads :=
  fun q hq => (hg.mem_iff q).2 (.inl hq)

theorem Gains.trans {k : Graph} (hg : g.Gains h P) (hh : h.Gains k Q) :
    g.Gains k fun s => P s ∨ Q s where
  quad s hs := hs.elim (hg.quad s) (hh.quad s)
  mem_iff q := by
    rw [hh.mem_iff, hg.mem_iff]
    simp only [or_and_right, exists_or, or_assoc]

/-- Statements that were there before may be counted in. -/
theorem Gains.extend (hg : g.Gains h P) (hPQ : ∀ s, P s → Q s)
    (hQ : ∀ s, Q s → P s ∨ ∃ q ∈ g.quads, s.quad = .ok q) : g.Gains h Q where
  quad s hs := by
    rcases hQ s hs with hs | ⟨q, -, hquad⟩
    · exact hg.quad s hs
    · exact ⟨q, hquad⟩
  mem_iff q := by
    rw [hg.mem_iff]
    constructor
    · rintro (hq | ⟨s, hs, hquad⟩)
      · exact .inl hq
      · exact .inr ⟨s, hPQ s hs, hquad⟩
    · rintro (hq | ⟨s, hs, hquad⟩)
      · exact .inl hq
      · rcases hQ s hs with hs | ⟨q', hq', hquad'⟩
        · exact .inr ⟨s, hs, hquad⟩
        · exact .inl (Except.ok.inj (hquad'.symm.trans hquad) ▸ hq')

end Rdf.Graph

/-! ## Batches -/

/-- A context whose entity is still to be written. -/
structure Contexts.Awaits (cs : Contexts) (id : Nat) (r : Resolved) : Prop where
  linked_eq : (cs.get id).linked = false
  resolved?_eq : (cs.get id).resolved? = some r

/-- What is still to be written is taken up as a whole. -/
theorem Contexts.Awaits.stage {cs : Contexts} {id : Nat} {r : Resolved} (h : cs.Awaits id r)
    (graph? : Option String) :
    Batch.empty.stage cs graph? id = ⟨r.dependents graph?, [id]⟩ := by
  rw [Batch.stage, h.linked_eq, h.resolved?_eq]
  rfl

/-- A batch of some statements and of the descriptions of those contexts that are still to be written. -/
structure Batch.Gathers (cs : Contexts) (graph? : Option String) (others : Statement → Prop)
    (ids : List Nat) (b : Batch) : Prop where
  mem_statements : ∀ s, s ∈ b.statements ↔
    others s ∨ ∃ id ∈ ids, ∃ r, cs.Awaits id r ∧ r.States graph? s
  mem_contexts : ∀ id, id ∈ b.contexts ↔ id ∈ ids ∧ ∃ r, cs.Awaits id r

namespace Batch.Gathers

variable {cs : Contexts} {graph? : Option String} {others : Statement → Prop} {ids : List Nat}
  {b : Batch}

theorem empty : Gathers cs graph? (fun _ => False) [] .empty :=
  ⟨fun s => by simp [Batch.empty], fun id => by simp [Batch.empty]⟩

theorem stage (h : b.Gathers cs graph? others ids) (id : Nat) :
    (b.stage cs graph? id).Gathers cs graph? others (ids ++ [id]) := by
  have hold (hid : ∀ r, cs.Awaits id r → id ∈ ids) : b.Gathers cs graph? others (ids ++ [id]) := by
    constructor
    · intro s
      rw [h.mem_statements]
      refine or_congr_right ⟨?_, ?_⟩
      · rintro ⟨other, hother, hr⟩
        exact ⟨other, List.mem_append_left _ hother, hr⟩
      · rintro ⟨other, hother, r, hr, hs⟩
        rcases List.mem_append.1 hother with hother | hother
        · exact ⟨other, hother, r, hr, hs⟩
        · obtain rfl := List.mem_singleton.1 hother
          exact ⟨other, hid r hr, r, hr, hs⟩
    · intro other
      rw [h.mem_contexts]
      refine ⟨fun ⟨hother, hr⟩ => ⟨List.mem_append_left _ hother, hr⟩, fun ⟨hother, r, hr⟩ => ?_⟩
      rcases List.mem_append.1 hother with hother | hother
      · exact ⟨hother, r, hr⟩
      · obtain rfl := List.mem_singleton.1 hother
        exact ⟨hid r hr, r, hr⟩
  rw [Batch.stage]
  split
  next hstaged =>
    refine hold fun r hr => ?_
    rw [hr.linked_eq, Bool.false_or, List.contains_iff_mem] at hstaged
    exact ((h.mem_contexts id).1 hstaged).1
  next hstaged =>
    rw [Bool.not_eq_true, Bool.or_eq_false_iff] at hstaged
    split
    next r hr =>
      have hawaits (r' : Resolved) : cs.Awaits id r' ↔ r' = r :=
        ⟨fun h' => Option.some.inj (h'.resolved?_eq.symm.trans hr), fun h' => ⟨hstaged.1, h' ▸ hr⟩⟩
      constructor
      · intro s
        simp only [List.mem_append, h.mem_statements, Resolved.mem_dependents_iff, List.mem_singleton,
          or_and_right, exists_or, exists_eq_left, hawaits, or_assoc]
      · intro other
        simp only [List.mem_append, h.mem_contexts, List.mem_singleton, or_and_right]
        refine or_congr_right ⟨?_, And.left⟩
        rintro rfl
        exact ⟨rfl, r, (hawaits r).2 rfl⟩
    next hr =>
      refine hold fun r hr' => ?_
      cases hr.symm.trans hr'.resolved?_eq

theorem stageAll (h : b.Gathers cs graph? others ids) (more : List Nat) :
    (more.foldl (Batch.stage cs graph?) b).Gathers cs graph? others (ids ++ more) := by
  induction more generalizing b ids with
  | nil => rwa [List.append_nil]
  | cons id rest ih =>
    have := ih (h.stage id)
    rwa [List.append_assoc] at this

theorem append (h : b.Gathers cs graph? others ids) (statements : List Statement) :
    Gathers cs graph? (fun s => others s ∨ s ∈ statements) ids
      { b with statements := b.statements ++ statements } where
  mem_statements s := by
    rw [List.mem_append, h.mem_statements]
    exact or_right_comm
  mem_contexts := h.mem_contexts

end Batch.Gathers

/-- The state after a batch was written for a range. -/
def RunState.link (s : RunState) (batch : Batch) (graph : Rdf.Graph) : RunState :=
  { s with
    graph := graph
    contexts := s.contexts.markLinked batch.contexts
    counters := { s.counters with rangesLinked := s.counters.rangesLinked + 1 } }

/-! ## Chains -/

/-- The statements that lead from each value to the next one, by one property each. -/
def Chained (graph? : Option String) (values : List Value) (properties : List String)
    (s : Statement) : Prop :=
  ∃ i a property b, values[i]? = some a ∧ properties[i]? = some property ∧ values[i + 1]? = some b ∧
    s = ⟨a.text, property, b, graph?⟩

theorem chained_cons {graph? : Option String} {a b : Value} {values : List Value} {property : String}
    {properties : List String} {s : Statement} :
    Chained graph? (a :: b :: values) (property :: properties) s ↔
      s = ⟨a.text, property, b, graph?⟩ ∨ Chained graph? (b :: values) properties s := by
  constructor
  · rintro ⟨i, v, p, w, hv, hp, hw, rfl⟩
    cases i with
    | zero =>
      cases hv
      cases hp
      cases hw
      exact .inl rfl
    | succ i => exact .inr ⟨i, v, p, w, hv, hp, hw, rfl⟩
  · rintro (rfl | ⟨i, v, p, w, hv, hp, hw, rfl⟩)
    · exact ⟨0, a, property, b, rfl, rfl, rfl, rfl⟩
    · exact ⟨i + 1, v, p, w, hv, hp, hw, rfl⟩

namespace Run

theorem chainStatements_cons (graph? : Option String) (subject property : String)
    {properties : List String} (h : properties ≠ []) (value : Value) (values : List (Option Value))
    (range : Value) :
    chainStatements graph? subject (property :: properties) (some value :: values) range =
      ⟨subject, property, value, graph?⟩ ::
        chainStatements graph? value.text properties values range := by
  obtain ⟨next, rest, rfl⟩ := List.exists_cons_of_ne_nil h
  rw [chainStatements, chainStatements, List.zip_cons_cons, chain, List.getLast?_cons_cons]
  dsimp only
  cases (next :: rest).getLast? <;> rfl

/-- With one property more than values in between, all of them are chained. -/
theorem mem_chainStatements_iff {graph? : Option String} {a range : Value} {values : List Value}
    {properties : List String} (h : properties.length = values.length + 1) {s : Statement} :
    s ∈ chainStatements graph? a.text properties (values.map some) range ↔
      Chained graph? (a :: values ++ [range]) properties s := by
  obtain ⟨property, properties, rfl⟩ := List.exists_cons_of_length_eq_add_one h
  induction values generalizing a property properties with
  | nil =>
    cases List.length_eq_zero_iff.1 (Nat.succ.inj h)
    have hnone : ¬Chained graph? [range] [] s := fun ⟨_, _, _, _, _, hp, _⟩ => by simp at hp
    rw [List.singleton_append, chained_cons, or_iff_left hnone]
    exact List.mem_singleton
  | cons b values ih =>
    obtain ⟨next, rest, rfl⟩ := List.exists_cons_of_length_eq_add_one (Nat.succ.inj h)
    rw [List.map_cons, chainStatements_cons _ _ _ (List.cons_ne_nil next rest), List.mem_cons,
      ih _ _ (Nat.succ.inj h)]
    exact chained_cons.symm

/-! ## The step of a range -/

section

variable {l : LinkSetting} {path : Nat} {ids : List Nat} {node : Location} {position : Nat}
  {batch? : Option Batch} {s t : RunState}

/-- What is gathered for a range: what is still to be written of the contexts that it is linked through, the
chain of properties to it, and its own description. Nothing is if its condition fails or the domain has no
value. -/
theorem gatherRange_ok (h : outcome (gatherRange l path ids node position) s = (.ok batch?, t)) :
    batch? = none ∧ (Condition.guardFails l.scene.conditionSetting node l.link.range.target.condition? =
        .ok true ∨ (t.contexts.get l.domain).resolved? = none) ∨ ∃ r domainValue properties,
      outcome (Resolution.ofRange l path node position s).run
        (Resolution.ofRange l path node position s).state = (.ok r, t) ∧
      (t.contexts.get l.domain).resolved?.map (·.value) = some domainValue ∧
      l.link.target.relationships.mapM l.scene.namespaces.expand = .ok properties ∧
      let batch := ids.foldl (Batch.stage t.contexts l.linkGraph?)
        (Batch.empty.stage t.contexts l.domainGraph? l.domain)
      let values := ids.map fun id => (t.contexts.get id).resolved?.map (·.value)
      batch? = some (Batch.stage t.contexts l.linkGraph?
        { batch with statements := batch.statements ++
          chainStatements l.linkGraph? domainValue.text properties values r.value } s.contexts.size) := by
  obtain ⟨range, t₁, h₁, h⟩ := bind_ok.1 h
  rw [outcome_enter] at h₁
  cases h₁
  obtain ⟨b, t₂, h₂, h⟩ := bind_ok.1 h
  obtain ⟨hguard, rfl⟩ := discards_ok.1 h₂
  split at h
  next hb =>
    cases h
    exact .inl ⟨rfl, .inl (hb ▸ hguard)⟩
  obtain ⟨r, t₃, hr, h⟩ := bind_ok.1 h
  obtain ⟨value?, t₄, h₄, h⟩ := bind_ok.1 h
  rw [outcome_resolvedValue?] at h₄
  cases h₄
  split at h
  next hvalue =>
    cases h
    exact .inl ⟨rfl, .inr (Option.map_eq_none_iff.1 hvalue)⟩
  next domainValue hvalue =>
    obtain ⟨properties, t₅, h₅, h⟩ := bind_ok.1 h
    obtain ⟨hproperties, rfl⟩ := ofSetup_ok.1 h₅
    obtain ⟨batch₁, t₆, h₆, h⟩ := bind_ok.1 h
    rw [outcome_stage] at h₆
    cases h₆
    obtain ⟨batch₂, t₇, h₇, h⟩ := bind_ok.1 h
    rw [outcome_stageAll] at h₇
    cases h₇
    obtain ⟨values, t₈, h₈, h⟩ := bind_ok.1 h
    rw [outcome_resolvedValues] at h₈
    cases h₈
    obtain ⟨batch₃, t₉, h₉, h⟩ := bind_ok.1 h
    rw [outcome_stage] at h₉
    cases h₉
    cases h
    exact .inr ⟨r, domainValue, properties, hr, hvalue, hproperties, rfl⟩

/-- The step of a range writes what it has gathered, or changes nothing that was written. -/
theorem linkRange_cases {result : Except Fault Unit}
    (h : outcome (linkRange l path ids node position) s = (result, t)) :
    Reads 0 s t ∨ ∃ u batch graph, outcome (gatherRange l path ids node position) s =
        (.ok (some batch), u) ∧ Reads 0 s u ∧ u.graph.add batch.statements = .ok graph ∧
      t = u.link batch graph := by
  have hreads := gatherRange_reads l path ids node position s
  rw [linkRange_eq, outcome_bind] at h
  rcases hgather : outcome (gatherRange l path ids node position) s with ⟨e | batch?, u⟩
  · rw [hgather] at h
    cases h
    exact .inl (after_eq hgather ▸ hreads)
  · rw [hgather] at h
    rw [after_eq hgather] at hreads
    cases batch? with
    | none =>
      cases h
      exact .inl hreads
    | some batch =>
      dsimp only [writeGathered] at h
      rw [outcome_bind, outcome_commit] at h
      rcases hadd : u.graph.add batch.statements with e | graph <;> rw [hadd] at h
      · cases h
        exact .inl hreads
      · cases h
        exact .inr ⟨u, batch, graph, rfl, hreads, hadd, rfl⟩

end

end Run

end Crosswalk
