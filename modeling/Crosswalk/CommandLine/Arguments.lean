import Crosswalk.Number.Width
import Crosswalk.Rdf.Format

/-!
# Arguments of the command line

The words after the name of the program, read from left to right: the first that is at fault ends the
reading, and that something is missing shows only at the end. An option is written out or by its letter,
its value stands in the same word or in the next, and none may be given twice.
-/

namespace Crosswalk.CommandLine

inductive Slot where
  | input
  | mapping
  | policy
  | vocabulary
  | output
  | format
  | uuidWidth
  | associations
  | report
  | settings
  deriving DecidableEq, Repr, Inhabited

namespace Slot

def all : List Slot :=
  [input, mapping, policy, vocabulary, output, format, uuidWidth, associations, report, settings]

def name : Slot → String
  | input => "input"
  | mapping => "x3ml"
  | policy => "policy"
  | vocabulary => "terminology"
  | output => "output"
  | format => "format"
  | uuidWidth => "uuid-test-size"
  | associations => "assoc-table"
  | report => "report"
  | settings => "config"

def letter? : Slot → Option Char
  | input => some 'i'
  | mapping => some 'x'
  | policy => some 'p'
  | vocabulary => some 't'
  | output => some 'o'
  | format => some 'f'
  | settings => some 'c'
  | _ => none

def purpose : Slot → String
  | input => "XML source document"
  | mapping => "X3ML mapping document"
  | policy => "Generator policy document (only built-in generators without one)"
  | vocabulary => "SKOS vocabulary for broader/exact_match conditions (.ttl, .nt, .rdf)"
  | output => "Output file (stdout when omitted)"
  | format => "Output format; overrides the config file"
  | uuidWidth => "Deterministic UUIDs of this width (uuid:AA, uuid:AB, ...), for tests"
  | associations => "Write the XPath/value association table as JSON"
  | report => "Write run statistics and diagnostics as JSON"
  | settings => "TOML engine configuration"

def isRequired : Slot → Bool
  | input => true
  | mapping => true
  | _ => false

def ofName? (s : String) : Option Slot :=
  all.find? fun slot => slot.name == s

def ofLetter? (c : Char) : Option Slot :=
  all.find? fun slot => slot.letter? == some c

end Slot

/-- A width: decimal digits, with a plus sign before them or not, that make a number of 64 bits. -/
def width? (s : String) : Option Nat :=
  let digits := match s.toList with
    | '+' :: rest => rest
    | cs => cs
  let n := digits.foldl (fun n c => 10 * n + (c.toNat - '0'.toNat)) 0
  if digits.isEmpty || !digits.all Char.isDigit || !Number.fitsUnsigned 64 n then none
  else some n

def Slot.admits : Slot → String → Bool
  | format, value => (Rdf.Format.ofExactName? value).isSome
  | uuidWidth, value => (width? value).isSome
  | _, value => !value.isEmpty

inductive Misuse where
  | unexpected (word : String)
  | repeated (slot : Slot)
  | valueMissing (slot : Slot)
  | badValue (slot : Slot) (value : String)
  | missing (slots : List Slot)
  deriving DecidableEq, Repr

namespace Misuse

def optionText (slot : Slot) : String :=
  "--" ++ slot.name ++ " <" ++ slot.name ++ ">"

def message : Misuse → String
  | unexpected word => "unexpected argument '" ++ word ++ "' found"
  | repeated slot => "the argument '" ++ optionText slot ++ "' cannot be used multiple times"
  | valueMissing slot => "a value is required for '" ++ optionText slot ++ "' but none was supplied"
  | badValue slot value => "invalid value '" ++ value ++ "' for '" ++ optionText slot ++ "'"
  | missing slots =>
    "the following required arguments were not provided: " ++ ", ".intercalate (slots.map optionText)

end Misuse

inductive Refusal where
  | help
  | version
  | misuse (fault : Misuse)
  deriving DecidableEq, Repr

/-! ## Words -/

inductive Word where
  | help
  | version
  | option (slot : Slot)
  | filled (slot : Slot) (value : String)
  | terminator
  | stray
  deriving DecidableEq, Repr

namespace Word

/-- An option written out, after its dashes. -/
def ofLong (cs : List Char) : Word :=
  let name := String.ofList (cs.takeWhile (· != '='))
  match cs.dropWhile (· != '='), name with
  | [], "help" => help
  | [], "version" => version
  | [], _ => ((Slot.ofName? name).map option).getD stray
  | _ :: value, _ => ((Slot.ofName? name).map fun slot => filled slot (String.ofList value)).getD stray

/-- Letters after a dash. The first is an option and the others are its value. -/
def ofLetters (c : Char) (rest : List Char) : Word :=
  if c == 'h' then help
  else if c == 'V' then version
  else
    match Slot.ofLetter? c, rest with
    | none, _ => stray
    | some slot, [] => option slot
    | some slot, '=' :: value => filled slot (String.ofList value)
    | some slot, value => filled slot (String.ofList value)

def ofText (s : String) : Word :=
  match s.toList with
  | ['-', '-'] => terminator
  | '-' :: '-' :: rest => ofLong rest
  | '-' :: c :: rest => ofLetters c rest
  | _ => stray

/-- Whether a word can be the value of the option before it. -/
def isValue (s : String) : Bool :=
  match s.toList with
  | '-' :: _ :: _ => false
  | _ => true

end Word

/-! ## Reading the words -/

abbrev Given := List (Slot × String)

def Given.add (given : Given) (slot : Slot) (value : String) : Except Refusal Given :=
  if (given.lookup slot).isSome then .error (.misuse (.repeated slot))
  else if slot.admits value then .ok (given ++ [(slot, value)])
  else .error (.misuse (.badValue slot value))

def collect : Given → List String → Except Refusal Given
  | given, [] => .ok given
  | given, word :: rest =>
    match Word.ofText word with
    | .help => .error .help
    | .version => .error .version
    | .filled slot value =>
      match given.add slot value with
      | .ok given => collect given rest
      | .error e => .error e
    | .option slot =>
      match rest with
      | [] => .error (.misuse (.valueMissing slot))
      | value :: rest =>
        if Word.isValue value then
          match given.add slot value with
          | .ok given => collect given rest
          | .error e => .error e
        else .error (.misuse (.valueMissing slot))
    | .terminator =>
      match rest with
      | [] => .ok given
      | extra :: _ => .error (.misuse (.unexpected extra))
    | .stray => .error (.misuse (.unexpected word))

structure Arguments where
  input : String
  mapping : String
  policy? : Option String
  vocabulary? : Option String
  output? : Option String
  format? : Option Rdf.Format
  uuidWidth? : Option Nat
  associations? : Option String
  report? : Option String
  settings? : Option String
  deriving DecidableEq, Repr

namespace Arguments

def ofGiven (given : Given) : Except Refusal Arguments :=
  match given.lookup .input, given.lookup .mapping with
  | some input, some mapping =>
    .ok ⟨input, mapping, given.lookup .policy, given.lookup .vocabulary, given.lookup .output,
      (given.lookup .format).bind Rdf.Format.ofExactName?, (given.lookup .uuidWidth).bind width?,
      given.lookup .associations, given.lookup .report, given.lookup .settings⟩
  | _, _ =>
    let absent := Slot.all.filter fun slot => slot.isRequired && (given.lookup slot).isNone
    .error (.misuse (.missing absent))

def ofWords (words : List String) : Except Refusal Arguments :=
  (collect [] words).bind ofGiven

end Arguments

/-! ## Help -/

def usageLine (slot : Slot) : String :=
  let letter := (slot.letter?.map fun c => "-" ++ String.singleton c ++ ", ").getD "    "
  "  " ++ letter ++ "--" ++ slot.name ++ " <" ++ slot.name ++ ">  " ++ slot.purpose

def usage : String :=
  "\n".intercalate
    (["X3ML mapping engine: XML to RDF", "",
      "Usage: x3ml [OPTIONS] --input <input> --x3ml <x3ml>", "", "Options:"] ++
      Slot.all.map usageLine ++ ["  -h, --help  Print help", "  -V, --version  Print version"])

def version : String :=
  "x3ml 0.1.0"

end Crosswalk.CommandLine
