import Crosswalk.Generator.Custom
import Crosswalk.Generator.Template
import Crosswalk.Mapping.Basic

/-!
# Generator policies

Some generators are always there. A policy adds generators under names of its own: a template
whose holes the arguments of a call fill, or a class of custom generators. A call can be checked
against the policy before anything is generated: what passes the check has a generator, and an
argument for every hole of its template.
-/

namespace Crosswalk

inductive BuiltIn where
  | freshUuid
  | literal
  | preferredLabel
  | constant
  | graphUri
  deriving DecidableEq, Repr

def BuiltIn.ofName? : String → Option BuiltIn
  | "UUID" => some freshUuid
  | "Literal" => some literal
  | "prefLabel" => some preferredLabel
  | "Constant" => some constant
  | "namedgraphURI" => some graphUri
  | _ => none

inductive GeneratorBody where
  | pattern (template : String)
  | custom (className : String)
  deriving DecidableEq, Repr, Inhabited

/-- A generator of the policy. With a namespace, given by its alias or as an IRI, it makes URIs. -/
structure GeneratorSpec where
  name : String
  space? : Option String
  /-- Whether the name-based UUID of the local part takes its place. -/
  shorten : Bool
  /-- Whether a fresh identifier is appended to the local part. -/
  uuid : Bool
  body : GeneratorBody
  deriving DecidableEq, Repr, Inhabited

structure GeneratorPolicy where
  generators : Table GeneratorSpec
  classes : CustomRegistry

namespace GeneratorPolicy

def empty : GeneratorPolicy :=
  ⟨.empty, .bundled⟩

instance : Inhabited GeneratorPolicy := ⟨empty⟩

/-- Adds a generator; it replaces one of the same name. -/
def insert (policy : GeneratorPolicy) (spec : GeneratorSpec) : GeneratorPolicy :=
  { policy with generators := policy.generators.insert spec.name spec }

def get? (policy : GeneratorPolicy) (name : String) : Option GeneratorSpec :=
  policy.generators.get? name

def size (policy : GeneratorPolicy) : Nat :=
  policy.generators.size

def specOf (policy : GeneratorPolicy) (call : GeneratorCall) : Except SetupError GeneratorSpec :=
  match policy.get? call.name with
  | some spec => .ok spec
  | none => .error (.unknownGenerator call.name)

def checkArguments (call : GeneratorCall) : List String → Except SetupError Unit
  | [] => .ok ()
  | name :: rest =>
    match call.argument? name with
    | some _ => checkArguments call rest
    | none => .error (.missingArgument call.name name)

/-- Checks a call that a run may come to. -/
def check (policy : GeneratorPolicy) (call : GeneratorCall) : Except SetupError Unit :=
  match BuiltIn.ofName? call.name with
  | some _ => .ok ()
  | none => do
    let spec ← policy.specOf call
    match spec.body with
    | .pattern template => checkArguments call (Template.placeholders template)
    | .custom className =>
      if policy.classes.contains className then .ok () else .error (.unknownClass className)

end GeneratorPolicy

end Crosswalk
