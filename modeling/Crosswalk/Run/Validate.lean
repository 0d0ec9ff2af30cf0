import Crosswalk.Mapping.Join
import Crosswalk.Run.State

/-!
# Checking a mapping

What can be said about a mapping and a policy before there is a document: that names have aliases, that calls
have generators, that entities have types and identities, and that relations fit together. Mappings
and links that are skipped are not looked at.
-/

namespace Crosswalk

namespace Engine

def checkNames (engine : Engine) : List String → Except SetupError Unit
  | [] => .ok ()
  | name :: rest => do
    let _ ← engine.namespaces.expand name
    checkNames engine rest

def checkCalls (engine : Engine) : List GeneratorCall → Except SetupError Unit
  | [] => .ok ()
  | call :: rest => do
    engine.policy.check call
    checkCalls engine rest

/-- Checks where the identity of an entity comes from, if it needs one of its own. -/
def checkIdentity (engine : Engine) (needed : Bool) (generator? : Option GeneratorCall)
    (variableName? globalName? : Option String) : Except SetupError Unit :=
  match generator? with
  | some call => engine.policy.check call
  | none =>
    if needed && variableName?.isNone && globalName?.isNone then .error .missingGenerator
    else .ok ()

mutual

def checkEntity (engine : Engine) (needsIdentity : Bool) : Entity → Except SetupError Unit
  | ⟨types, generator?, labels, additionals, variableName?, globalName?⟩ => do
    if types.isEmpty then .error .missingType
    else
      checkNames engine types
      checkIdentity engine needsIdentity generator? variableName? globalName?
      checkCalls engine labels
      checkAdditionals engine additionals

def checkAdditionals (engine : Engine) : List (Attached Entity) → Except SetupError Unit
  | [] => .ok ()
  | ⟨relationship, entity⟩ :: rest => do
    let _ ← engine.namespaces.expand relationship
    checkEntity engine true entity
    checkAdditionals engine rest

end

def checkEntities (engine : Engine) : List Entity → Except SetupError Unit
  | [] => .ok ()
  | entity :: rest => do
    checkEntity engine true entity
    checkEntities engine rest

/-- Checks a relation that links its range: one relationship more than entities in between. -/
def checkRelation (engine : Engine) (target : TargetRelation) : Except SetupError Unit := do
  if target.relationships.length != target.entities.length + 1 then
    .error (.malformedRelation target.relationships.length target.entities.length)
  else
    checkNames engine target.relationships
    checkEntities engine target.entities

def checkJoin (source : SourceRelation) : Except SetupError Unit :=
  if source.isJoin then source.join.map fun _ => () else .ok ()

def checkLink (engine : Engine) (link : Link) : Except SetupError Unit := do
  checkJoin link.source
  checkNames engine link.graph?.toList
  if link.target.isMerge then checkEntity engine false link.range.target.entity
  else
    checkRelation engine link.target
    checkEntity engine true link.range.target.entity

def checkLinks (engine : Engine) : List Link → Except SetupError Unit
  | [] => .ok ()
  | link :: rest => do
    if !link.skip then checkLink engine link
    checkLinks engine rest

def checkMapping (engine : Engine) (mapping : Mapping) : Except SetupError Unit := do
  checkEntity engine true mapping.domain.target.entity
  checkCalls engine mapping.domain.graphGenerator?.toList
  checkNames engine mapping.graph?.toList
  checkLinks engine mapping.links

def checkMappings (engine : Engine) : List Mapping → Except SetupError Unit
  | [] => .ok ()
  | mapping :: rest => do
    if !mapping.skip then checkMapping engine mapping
    checkMappings engine rest

def validate (engine : Engine) : Except SetupError Unit :=
  checkMappings engine engine.mapping.mappings

end Engine

end Crosswalk
