import Crosswalk.Text.Blank
import Crosswalk.Xml.Reader

/-!
# Document types

A document may say before its root element of what type it is, and may declare entities there:
names for texts that references in the document stand for. Here the declaration is taken out and each
reference to a declared entity is replaced by numeric references to the characters of its text.
What remains is a document without a document type that means the same, and since a numeric
reference is never taken for markup, no text of an entity can open or close a tag.
-/

namespace Crosswalk.Xml.DocumentType

/-- The declared entities with their texts, the last one first. -/
abbrev Entities := List (List Char × List Char)

def reference (c : Char) : List Char :=
  '&' :: '#' :: (toString c.toNat).toList ++ [';']

/-- The text of a declared entity. An entity that needs no declaration keeps its meaning. -/
def meaning? (entities : Entities) (name : List Char) : Option (List Char) :=
  if (entity? name).isSome then none
  else entities.lookup name

/-- What follows an ampersand, with the ampersand or with what the reference stands for. -/
def expandAfter (entities : Entities) (cs : List Char) : List Char :=
  match Text.cutChars? [';'] cs with
  | some (name, rest) =>
    match meaning? entities name with
    | some text => text.flatMap reference ++ rest
    | none => '&' :: cs
  | none => '&' :: cs

def expand (entities : Entities) (cs : List Char) : List Char :=
  match Text.splitChars ['&'] cs with
  | [] => []
  | first :: rest => first ++ rest.flatMap (expandAfter entities)

/-- The entities after one more declaration, which is given without its opening bracket. Its value may
refer to the entities before it. Declarations of another kind say nothing here. -/
def declare? (entities : Entities) (cs : List Char) : Option Entities :=
  match Text.after? "!ENTITY".toList cs with
  | none => some entities
  | some rest => do
    let rest := rest.dropWhile Text.isBlank
    let rest := ((Text.after? ['%'] rest).getD rest).dropWhile Text.isBlank
    let name := rest.takeWhile (! isSpace ·)
    let value ← Text.after? ['"'] ((rest.drop name.length).dropWhile Text.isBlank)
    let (written, rest) ← Text.cutChars? ['"'] value
    let _ ← Text.after? ['>'] (rest.dropWhile Text.isBlank)
    let text ← textOf? (expand entities written)
    some ((name, text.toList) :: entities)

/-- The parts before and after the bracket that closes what is open. -/
def cutClosing? : Nat → List Char → Option (List Char × List Char)
  | _, [] => none
  | 0, '>' :: rest => some ([], rest)
  | depth + 1, '>' :: rest => (cutClosing? depth rest).map fun (inside, after) => ('>' :: inside, after)
  | depth, '<' :: rest => (cutClosing? (depth + 1) rest).map fun (inside, after) => ('<' :: inside, after)
  | depth, c :: rest => (cutClosing? depth rest).map fun (inside, after) => (c :: inside, after)

/-- What stands before the document type, in it and after it. Before it there are no tags. -/
def cut? (cs : List Char) : Option (List Char × List Char × List Char) := do
  let (before, rest) ← Text.cutChars? "<!DOCTYPE".toList cs
  let pieces ← Markup.ofChars? before
  let isTag : Markup → Bool
    | .openTag .. | .closeTag _ => true
    | _ => false
  if pieces.any isTag then none
  let (inside, after) ← cutClosing? 0 rest
  some (before, inside, after)

/-- A document without its document type, if it has one, and without references to the entities that
are declared there. -/
def resolve? (document : String) : Option String :=
  match cut? document.toList with
  | none => some document
  | some (before, inside, after) => do
    let declarations := (Text.splitChars ['<'] inside).drop 1
    let entities ← declarations.foldlM declare? []
    some (String.ofList (before ++ expand entities after))

/-! ## Lemmas -/

theorem meaning?_nil (name : List Char) : meaning? [] name = none := by
  simp [meaning?]

theorem expandAfter_nil (cs : List Char) : expandAfter [] cs = '&' :: cs := by
  simp only [expandAfter, meaning?_nil]
  split <;> rfl

end Crosswalk.Xml.DocumentType
