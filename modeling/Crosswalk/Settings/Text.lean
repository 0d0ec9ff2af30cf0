import Crosswalk.Settings
import Crosswalk.Toml.Reader
import Crosswalk.Toml.Writer

/-!
# Settings as text

Settings are kept as entries at the top of a TOML document. An entry that is missing leaves the default,
an entry that means nothing here is passed over, and one of the wrong kind spoils the whole. The numbers
of such a document have 64 bits with a sign, so not every width can be written.
-/

namespace Crosswalk

namespace Toml

def text? : Toml → Option String
  | string s => some s
  | _ => none

def natural? : Toml → Option Nat
  | integer (.ofNat n) => some n
  | _ => none

def holdsNothing : Toml → Bool
  | array items => items.isEmpty
  | table _ entries => entries.isEmpty
  | _ => false

/-- A choice by name: the name itself, or a table with that name alone and nothing in it. -/
def choice? : Toml → Option String
  | string s => some s
  | table _ [(name, v)] => if v.holdsNothing then some name else none
  | _ => none

def valueOf? {α : Type} (entries : Entries) (key : String) (view : Toml → Option α)
    (default : α) : Option α :=
  match entries.lookup key with
  | some v => view v
  | none => some default

end Toml

namespace Settings

def ofEntries? (entries : Toml.Entries) : Option Settings := do
  let width? ← Toml.valueOf? entries "uuid_test_size" (fun v => v.natural?.map some) default.uuidWidth?
  let delimiter ← Toml.valueOf? entries "merge_delimiter" Toml.text? default.mergeDelimiter
  let format ← Toml.valueOf? entries "output_format"
    (fun v => v.choice?.bind Rdf.Format.ofExactName?) default.format
  let language? ← Toml.valueOf? entries "default_language" (fun v => v.text?.map some)
    default.defaultLanguage?
  some ⟨width?, delimiter, format, language?⟩

def read? (text : String) : Option Settings :=
  (Toml.read? text).bind ofEntries?

def widthLine? : Option Nat → Option String
  | none => some ""
  | some width =>
    if Number.fitsUnsigned 63 width then some (Toml.entryLine "uuid_test_size" (toString width)) else none

def languageLine : Option String → String
  | none => ""
  | some language => Toml.entryLine "default_language" (Toml.quote language)

def text? (s : Settings) : Option String :=
  (widthLine? s.uuidWidth?).map fun widthLine =>
    widthLine ++ Toml.entryLine "merge_delimiter" (Toml.quote s.mergeDelimiter) ++
      Toml.entryLine "output_format" (Toml.quote s.format.name) ++
      languageLine s.defaultLanguage?

end Settings

end Crosswalk
