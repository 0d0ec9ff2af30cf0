import Crosswalk.Proofs.Reading

/-!
# How a batch is gathered and written

Gathering a batch only looks at the contexts, and writing one is all or nothing: either every statement
of it is in the graph afterwards and its contexts are marked, or the state is what it was.
-/

namespace Crosswalk

/-- Marks some contexts as written. -/
def Contexts.markLinked (cs : Contexts) (ids : List Nat) : Contexts :=
  ids.foldl (fun cs id => cs.update id fun c => { c with linked := true }) cs

/-- Marking contexts only changes their marks. -/
theorem Contexts.get_markLinked_congr {γ : Type} (g : Context → γ)
    (h : ∀ c, g { c with linked := true } = g c) (cs : Contexts) (ids : List Nat) (id : Nat) :
    g ((cs.markLinked ids).get id) = g (cs.get id) := by
  induction ids generalizing cs with
  | nil => rfl
  | cons other rest ih => exact (ih _).trans (Contexts.get_update_congr g h)

theorem Contexts.resolved?_get_markLinked (cs : Contexts) (ids : List Nat) (id : Nat) :
    ((cs.markLinked ids).get id).resolved? = (cs.get id).resolved? :=
  get_markLinked_congr (·.resolved?) (fun _ => rfl) cs ids id

theorem Contexts.size_markLinked (cs : Contexts) (ids : List Nat) :
    (cs.markLinked ids).size = cs.size := by
  induction ids generalizing cs with
  | nil => rfl
  | cons other rest ih => exact (ih _).trans (Contexts.size_update cs other _)

theorem Contexts.extends_markLinked (cs : Contexts) (ids : List Nat) :
    cs.Extends (cs.markLinked ids) :=
  ⟨Nat.le_of_eq (cs.size_markLinked ids).symm,
    fun id _ => get_markLinked_congr (·.seat) (fun _ => rfl) cs ids id,
    fun id r hr => by rw [cs.resolved?_get_markLinked, hr],
    fun id name v hv =>
      (congrArg (·.get? name) (get_markLinked_congr (·.bindings) (fun _ => rfl) cs ids id)).trans hv⟩

/-- No context is marked that was not among those to be marked. -/
theorem Contexts.linked_of_markLinked {cs : Contexts} {ids : List Nat} {id : Nat}
    (h : ((cs.markLinked ids).get id).linked = true) : (cs.get id).linked = true ∨ id ∈ ids := by
  induction ids generalizing cs with
  | nil => exact .inl h
  | cons other rest ih =>
    rcases ih h with h | h
    · by_cases hid : id = other
      · exact .inr (hid ▸ List.mem_cons_self)
      · rw [Contexts.get_update_of_ne hid] at h
        exact .inl h
    · exact .inr (List.mem_cons_of_mem other h)

/-- The batch with what hangs off the entity of a context, if it is still to be written. -/
def Batch.stage (cs : Contexts) (graph? : Option String) (batch : Batch) (id : Nat) : Batch :=
  if (cs.get id).linked || batch.contexts.contains id then batch
  else
    match (cs.get id).resolved? with
    | some resolved =>
      ⟨batch.statements ++ resolved.dependents graph?, batch.contexts ++ [id]⟩
    | none => batch

namespace Run

variable {s t : RunState}

theorem outcome_stage (batch : Batch) (id : Nat) (graph? : Option String) (s : RunState) :
    outcome (stage batch id graph?) s = (.ok (batch.stage s.contexts graph? id), s) := by
  rw [stage, outcome_bind, outcome_context, Batch.stage]
  dsimp only
  split
  · rfl
  · cases (s.contexts.get id).resolved? <;> rfl

theorem outcome_stageAll (batch : Batch) (graph? : Option String) (ids : List Nat) (s : RunState) :
    outcome (stageAll batch graph? ids) s =
      (.ok (ids.foldl (Batch.stage s.contexts graph?) batch), s) := by
  induction ids generalizing batch with
  | nil => rfl
  | cons id rest ih =>
    rw [stageAll, outcome_bind, outcome_stage]
    exact ih _

theorem outcome_resolvedValues (ids : List Nat) (s : RunState) :
    outcome (ids.mapM resolvedValue?) s =
      (.ok (ids.map fun id => (s.contexts.get id).resolved?.map (·.value)), s) := by
  induction ids with
  | nil => rfl
  | cons id rest ih =>
    rw [List.mapM_cons, outcome_bind, outcome_resolvedValue?]
    dsimp only
    rw [outcome_bind, ih]
    rfl

theorem outcome_markLinked (ids : List Nat) (s : RunState) :
    outcome (markLinked ids) s = (.ok (), { s with contexts := s.contexts.markLinked ids }) := by
  induction ids generalizing s with
  | nil => rfl
  | cons id rest ih =>
    rw [markLinked, List.forM, outcome_bind, outcome_updateContext]
    exact ih _

/-- The fault for a batch that cannot be written. -/
def rejection : GraphError → Fault
  | .invalidTerm value => .drop (.invalidIri value)
  | e => .abort (.graph e)

theorem outcome_commit (batch : Batch) (s : RunState) :
    outcome (commit batch) s =
      match s.graph.add batch.statements with
      | .ok graph =>
        (.ok (), { s with graph := graph, contexts := s.contexts.markLinked batch.contexts })
      | .error e => (.error (rejection e), s) := by
  rw [commit, outcome_bind, outcome_get]
  dsimp only
  rcases s.graph.add batch.statements with e | graph
  · cases e <;> rfl
  · dsimp only
    rw [outcome_bind, outcome_modify]
    exact outcome_markLinked _ _

theorem outcome_link (id : Nat) (graph? : Option String) (s : RunState) :
    outcome (link id graph?) s = outcome (commit (Batch.empty.stage s.contexts graph? id)) s := by
  rw [link, outcome_bind, outcome_stage]

theorem uuids_link (id : Nat) (graph? : Option String) (s : RunState) :
    (after (link id graph?) s).uuids = s.uuids := by
  rw [after, outcome_link, outcome_commit]
  split <;> rfl

end Run

end Crosswalk
