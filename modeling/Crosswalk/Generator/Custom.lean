import Crosswalk.Number.Width
import Crosswalk.Table
import Crosswalk.Text.Blank
import Crosswalk.Text.Search

/-!
# Custom generators

A policy may name a class of generators instead of a pattern. A class says what it produces from
the arguments that a generator was given, in their order, and which arguments it refuses. The
registry of classes that a run can use holds two classes of its own, and others may be added.
-/

namespace Crosswalk

inductive ProductKind where
  /-- A URI that may be relative to the namespace of the policy. -/
  | uri
  /-- A URI that is never placed in a namespace. -/
  | uuid
  | literal
  deriving DecidableEq, Repr, Inhabited

def ProductKind.name : ProductKind → String
  | uri => "uri"
  | uuid => "uuid"
  | literal => "literal"

structure CustomClass where
  kind : ProductKind
  /-- Whether the values of a repeated element arrive joined, and not only the first of them. -/
  merges : Bool
  /-- Whether a relative URI is placed in the namespace of the policy. -/
  usesNamespace : Bool
  /-- Why an argument of that name and value is refused, if it is. -/
  refusal? : String → String → Option String
  /-- What is produced from the accepted arguments, given the delimiter of merged values. -/
  produce : String → List (String × String) → Except String String

namespace CustomClass

def unexpected (name : String) : String :=
  "unexpected argument \"" ++ name ++ "\""

def lastNamed? (arguments : List (String × String)) (name : String) : Option String :=
  arguments.reverse.lookup name

/-! ## Joining the values of an element -/

/-- The parts of a merged value: what is not blank between its delimiters. -/
def parts (delimiter merged : String) : List String :=
  ((Text.split delimiter merged).map Text.trim).filter fun p => !p.isEmpty

/-- Joins the values of a repeated element, with a space between them unless told otherwise. -/
def concatenation : CustomClass where
  kind := .literal
  merges := true
  usesNamespace := false
  refusal? name _ := if name == "text" || name == "delimiter" then none else some (unexpected name)
  produce delimiter arguments :=
    let text := (lastNamed? arguments "text").getD ""
    let glue := (lastNamed? arguments "delimiter").getD " "
    .ok (glue.intercalate (parts delimiter text))

/-! ## Keeping an identifier of the source -/

/-- The number after `text` in the name of an argument: decimal digits, after a plus sign or none,
of a number of 64 bits. -/
def textIndex? (name : String) : Option Nat := do
  let suffix ← Text.dropStart? "text" name
  let digits := match suffix.toList with
    | '+' :: rest => rest
    | cs => cs
  if digits.isEmpty || !digits.all Char.isDigit then none
  else
    let n := digits.foldl (fun n c => 10 * n + (c.toNat - '0'.toNat)) 0
    if Number.fitsUnsigned 64 n then some n else none

/-- Places a text at its index; of two with one index the later stays. -/
def placeText (index : Nat) (text : String) : List (Nat × String) → List (Nat × String)
  | [] => [(index, text)]
  | (i, t) :: rest =>
    if index < i then (index, text) :: (i, t) :: rest
    else if index = i then (index, text) :: rest
    else (i, t) :: placeText index text rest

/-- The texts among some arguments, in the order of their indexes. -/
def indexedTexts (arguments : List (String × String)) : List String :=
  let placed := arguments.foldl (fun placed (name, value) =>
    match textIndex? name with
    | some i => placeText i (Text.trim value) placed
    | none => placed) []
  placed.map (·.2)

/-- The identifier that the source has, or else one put together from numbered texts. -/
def existingOrNew : CustomClass where
  kind := .uri
  merges := false
  usesNamespace := true
  refusal? name _ :=
    if name == "uri" || (textIndex? name).isSome then none else some (unexpected name)
  produce _ arguments :=
    let existing := Text.trim ((lastNamed? arguments "uri").getD "")
    if !existing.isEmpty then .ok existing
    else
      match (indexedTexts arguments).filter fun t => !t.isEmpty with
      | [] => .error "neither uri nor any text argument has a value"
      | texts => .ok ("/".intercalate texts)

end CustomClass

abbrev CustomRegistry := Table CustomClass

/-- The classes that are always there, each under its full and its short name. -/
def CustomRegistry.bundled : CustomRegistry :=
  .ofList [
    ("gr.forth.ConcatMultipleTerms", .concatenation), ("ConcatMultipleTerms", .concatenation),
    ("gr.forth.UriExistingOrNew", .existingOrNew), ("UriExistingOrNew", .existingOrNew)]

end Crosswalk
