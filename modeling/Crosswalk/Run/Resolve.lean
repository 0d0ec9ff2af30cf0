import Crosswalk.Run.Identity

/-!
# Resolving entities

A description and a context make an entity: its value, and for a resource its labels and additional
entities. What was resolved in a context stays there, so that a second time costs nothing. Nothing is
written to the graph yet.
-/

namespace Crosswalk

open Crosswalk.Xml (Location)

def labelProperty : String := Namespaces.rdfs ++ "label"

def preferredLabelProperty : String := Namespaces.skos ++ "prefLabel"

def labelPropertyOf (call : GeneratorCall) : String :=
  if call.name == "prefLabel" then preferredLabelProperty else labelProperty

/-- A generated value as a label: the IRI of a resource is a text like others. -/
def Value.asLabel : Value → Value
  | .uri iri => .literal iri none
  | v => v

/-- Whether a label that could not be generated for this reason is simply left out. -/
def DropCause.leavesOutLabel : DropCause → Bool
  | .emptyLiteral _ => true
  | .missingValue _ _ => true
  | _ => false

namespace Run

def expandAll (scene : Scene) (names : List String) : Run (List String) :=
  ofSetup (names.mapM scene.namespaces.expand)

/-- The label of a generator, unless it has no text. -/
def label? (scene : Scene) (call : GeneratorCall) (c : Context) : Run (Option (String × Value)) :=
  tryCatch
    (do
      let v ← generate scene call c.node c.position
      return some (labelPropertyOf call, v.asLabel))
    fun
    | .drop cause => if cause.leavesOutLabel then return none else throw (.drop cause)
    | .abort e => throw (.abort e)

def labels (scene : Scene) (c : Context) : List GeneratorCall → Run (List (String × Value))
  | [] => return []
  | call :: rest => do
    let label ← label? scene call c
    let others ← labels scene c rest
    return label.toList ++ others

def associate (scene : Scene) (node : Location) (value : Value) : Run Unit :=
  modify fun s => { s with
    associations := s.associations.record ⟨scene.source.path node, value.text⟩ }

def additionalContext (c : Context) (owner : Nat) (value : Value) (k : Nat)
    (relationship : String) : Context :=
  { Context.fresh (.additional k) c.node c.position (some owner) with
    discriminator? := some (relationship ++ "@" ++ value.text) }

mutual

/-- Resolves an entity in a context. With an identity, the entity has that value and generates
none. -/
def resolveWith (scene : Scene) (place : Place) (id : Nat) (identity? : Option Value) :
    Entity → Run Resolved
  | ⟨typeNames, generator?, labelCalls, additionals, variableName?, globalName?⟩ => do
    let c ← context id
    match c.resolved? with
    | some resolved => return resolved
    | none =>
      if typeNames.isEmpty then throw (Fault.setup .missingType)
      else
        let types ← expandAll scene typeNames
        let value ← match identity? with
          | some value => pure value
          | none => do
            let generated ← entityValue scene place
              ⟨typeNames, generator?, labelCalls, additionals, variableName?, globalName?⟩ id types
            ofSetup (generated.shape types)
        associate scene c.node value
        let (labels, attached) ←
          if value.isUri then do
            let labels ← labels scene c labelCalls
            let attached ← resolveAdditionals scene place id c value 0 additionals
            pure (labels, attached)
          else pure ([], [])
        let resolved : Resolved := ⟨value, types, labels, attached⟩
        updateContext id fun c => { c with resolved? := some resolved }
        return resolved

/-- Resolves the additional entities of an owner, of which the first has the number `k`. -/
def resolveAdditionals (scene : Scene) (place : Place) (owner : Nat) (c : Context) (value : Value)
    (k : Nat) : List (Attached Entity) → Run (List (Attached Resolved))
  | [] => return []
  | ⟨name, entity⟩ :: rest => do
    let relationship ← ofSetup (scene.namespaces.expand name)
    let id ← enter (additionalContext c owner value k relationship)
    let resolved ← resolveWith scene place id none entity
    let others ← resolveAdditionals scene place owner c value (k + 1) rest
    return ⟨relationship, resolved⟩ :: others

end

def resolve (scene : Scene) (place : Place) (entity : Entity) (id : Nat) : Run Resolved :=
  resolveWith scene place id none entity

end Run

end Crosswalk
