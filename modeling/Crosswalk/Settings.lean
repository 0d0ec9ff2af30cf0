import Crosswalk.Rdf.Format

/-!
# Settings

What can be chosen for a run: whether identifiers are counted and how wide they are then written,
what stands between merged values, the format of the output, and the language of literals that come
without one.
-/

namespace Crosswalk

structure Settings where
  uuidWidth? : Option Nat
  mergeDelimiter : String
  format : Rdf.Format
  defaultLanguage? : Option String
  deriving DecidableEq, Repr

def Settings.default : Settings :=
  ⟨none, "|||", .rdfXml, none⟩

instance : Inhabited Settings := ⟨.default⟩

end Crosswalk
