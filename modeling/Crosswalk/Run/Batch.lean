import Crosswalk.Run.State

/-!
# Batches

Statements are gathered in a batch and written together or not at all. What hangs off an entity is written
once: the batch notes the contexts whose entities it describes, and once it is written they are
marked.
-/

namespace Crosswalk

open Crosswalk.Rdf (Statement)

/-! ## What hangs off an entity -/

def typeStatement (subject : String) (graph? : Option String) (type : String) : Statement :=
  ⟨subject, Rdf.Graph.typeIri, .uri type, graph?⟩

mutual

/-- The statements of a resource about its types, labels and additional entities. A literal has
none. -/
def Resolved.dependents (graph? : Option String) : Resolved → List Statement
  | ⟨.uri subject, types, labels, additionals⟩ =>
    types.map (typeStatement subject graph?) ++
      labels.map (fun (property, label) => ⟨subject, property, label, graph?⟩) ++
      attachedStatements graph? subject additionals
  | _ => []

/-- The statements that lead to some additional entities, and those that hang off them. -/
def attachedStatements (graph? : Option String) (subject : String) :
    List (Attached Resolved) → List Statement
  | [] => []
  | ⟨relationship, ⟨value, types, labels, additionals⟩⟩ :: rest =>
    ⟨subject, relationship, value, graph?⟩ ::
      Resolved.dependents graph? ⟨value, types, labels, additionals⟩ ++
      attachedStatements graph? subject rest

end

/-! ## Batches -/

structure Batch where
  statements : List Statement
  contexts : List Nat
  deriving Repr, Inhabited

namespace Batch

def empty : Batch := ⟨[], []⟩

def add (b : Batch) (s : Statement) : Batch :=
  { b with statements := b.statements ++ [s] }

end Batch

namespace Run

/-- Adds what hangs off the entity of a context, unless it was written or is in the batch. -/
def stage (batch : Batch) (id : Nat) (graph? : Option String) : Run Batch := do
  let c ← context id
  if c.linked || batch.contexts.contains id then return batch
  else
    match c.resolved? with
    | some resolved =>
      return ⟨batch.statements ++ resolved.dependents graph?, batch.contexts ++ [id]⟩
    | none => return batch

def stageAll (batch : Batch) (graph? : Option String) : List Nat → Run Batch
  | [] => return batch
  | id :: rest => do
    let batch ← stage batch id graph?
    stageAll batch graph? rest

def markLinked (ids : List Nat) : Run Unit :=
  ids.forM fun id => updateContext id fun c => { c with linked := true }

/-- Writes a batch. If a term of it is not valid nothing is written, and the step is dropped. -/
def commit (batch : Batch) : Run Unit := do
  match (← get).graph.add batch.statements with
  | .ok graph =>
    modify fun s => { s with graph := graph }
    markLinked batch.contexts
  | .error (.invalidTerm value) => drop (.invalidIri value)
  | .error e => throw (.abort (.graph e))

def link (id : Nat) (graph? : Option String) : Run Unit := do
  let batch ← stage .empty id graph?
  commit batch

end Run

end Crosswalk
