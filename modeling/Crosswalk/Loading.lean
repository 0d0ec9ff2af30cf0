import Crosswalk.Generator.PolicyLayout
import Crosswalk.Mapping.Layout
import Crosswalk.Settings.Text
import Crosswalk.Vocabulary.Reader
import Crosswalk.Xml.Reader

/-!
# Loading files

What a file gives, from its path and from what came of reading it. Nothing here reads: the outer layer
does, and hands over the text or the reason why there is none.
-/

namespace Crosswalk

abbrev FileContent := Except ReadFault String

namespace FileContent

def document (path : String) (content : FileContent) : Except LoadError String :=
  content.mapError fun _ => .unreadable path

end FileContent

def MappingDocument.load (path : String) (content : FileContent) : Except LoadError MappingDocument :=
  (content.document path).bind MappingDocument.read

def GeneratorPolicy.load (path : String) (content : FileContent) : Except LoadError GeneratorPolicy :=
  (content.document path).bind GeneratorPolicy.read

def Xml.Document.load (path : String) (content : FileContent) : Except LoadError Xml.Document :=
  (content.document path).bind fun text =>
    match Xml.Document.read? text with
    | some document => .ok document
    | none => .error (.malformed path)

/-- The vocabulary of a file. That its extension is unknown weighs more than that it cannot be read. -/
def Vocabulary.load (path : String) (content : FileContent) : Except VocabularyError Vocabulary :=
  let extension := (extension? path).getD ""
  match VocabularyNotation.ofExtension? extension with
  | none => .error (.unknownExtension extension path)
  | some kind => (content.mapError fun fault => .unreadable path fault).bind (Vocabulary.read kind)

def Settings.load (path : String) (content : FileContent) : Except SettingsError Settings :=
  match content with
  | .error _ => .error (.unreadable path)
  | .ok text =>
    match Settings.read? text with
    | some settings => .ok settings
    | none => .error (.malformed path)

def Settings.fileText (path : String) (settings : Settings) : Except SettingsError String :=
  match settings.text? with
  | some text => .ok text
  | none => .error (.malformed path)

end Crosswalk
