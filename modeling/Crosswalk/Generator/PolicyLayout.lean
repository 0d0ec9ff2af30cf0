import Crosswalk.Generator.Policy
import Crosswalk.Mapping.Layout

/-!
# Reading policy documents

The layout of a policy document: its root holds the generators, each with a pattern or with the
name of a custom class. Of two generators of one name the later counts.
-/

namespace Crosswalk.Layout

open Crosswalk.Xml (Content)

/-- The body of a generator: a pattern or a custom class, and not both. -/
def readBody (name : String) (c : Content) : Except LayoutFault GeneratorBody :=
  match (c.elementsNamed "pattern").head?, (c.elementsNamed "custom").head? with
  | some pattern, none => .ok (.pattern (textOf pattern))
  | none, some custom =>
    match optional? custom "generatorClass" with
    | some className => .ok (.custom className)
    | none => .error (.unnamedClass name)
  | some _, some _ => .error (.twoBodies name)
  | none, none => .error (.noBody name)

def readSpec (c : Content) : Except LayoutFault GeneratorSpec := do
  match optional? c "name" with
  | none => .error .unnamedGenerator
  | some name =>
    let body ← readBody name c
    .ok ⟨name, optional? c "prefix", flag c "shorten", flag c "uuid", body⟩

def readPolicy (root : Content) : Except LayoutFault GeneratorPolicy := do
  if root.localName != "generator_policy" then
    .error (.wrongRoot "generator_policy" root.localName)
  else
    let specs ← (root.elementsNamed "generator").mapM readSpec
    .ok (specs.foldl .insert .empty)

end Crosswalk.Layout

namespace Crosswalk

def GeneratorPolicy.read (text : String) : Except LoadError GeneratorPolicy :=
  Layout.readText "generator policy" Layout.readPolicy text

end Crosswalk
