import Crosswalk.Generator.Policy
import Crosswalk.Generator.Uuid
import Crosswalk.Text.Percent
import Crosswalk.Value

/-!
# Generating values

A call of a generator becomes a value. The values of its arguments are supplied from outside; what
a generation changes is the source of identifiers, and it keeps a record of the arguments that it
asked for, each with whether all its values were wanted.

The language of a literal is that of an explicit argument `language`, else the one that came with
the text, else the default. An explicit language that is blank takes the language away.
-/

namespace Crosswalk

/-- The value of an argument, and the language that it carries. -/
structure ArgumentValue where
  value : String
  language? : Option String
  deriving DecidableEq, Repr, Inhabited

/-- Supplies the values of arguments, of all matches together when the flag is set. -/
abbrev ArgumentReader := Argument → Bool → Except RunError ArgumentValue

structure GeneratorSetting where
  namespaces : Namespaces
  defaultLanguage? : Option String
  mergeDelimiter : String

structure GenerationState where
  uuids : UuidSource
  asked : List (String × Bool)
  deriving DecidableEq, Repr, Inhabited

/-- A generation that may fail. What it drew stays drawn even then. -/
abbrev Generation := ExceptT Fault (StateM GenerationState)

namespace Generation

def ask (reader : ArgumentReader) (argument : Argument) (merged : Bool) :
    Generation ArgumentValue := do
  modify fun s => { s with asked := s.asked ++ [(argument.name, merged)] }
  match reader argument merged with
  | .ok v => return v
  | .error e => throw (.abort e)

def nextUri : Generation String :=
  modifyGet fun s => (s.uuids.nextUri.1, { s with uuids := s.uuids.nextUri.2 })

def nextSuffix : Generation String :=
  modifyGet fun s => (s.uuids.nextSuffix.1, { s with uuids := s.uuids.nextSuffix.2 })

def ofSetup {α : Type} : Except SetupError α → Generation α
  | .ok a => return a
  | .error e => throw (Fault.setup e)

end Generation

open Generation

def GeneratorCall.require (call : GeneratorCall) (name : String) : Except SetupError Argument :=
  match call.argument? name with
  | some a => .ok a
  | none => .error (.missingArgument call.name name)

def required (reader : ArgumentReader) (call : GeneratorCall) (name : String) :
    Generation ArgumentValue := do
  let argument ← ofSetup (call.require name)
  ask reader argument false

/-! ## Languages -/

/-- The language of a literal: the given one without blanks around it, or none when it is blank;
the default when none is given. -/
def effectiveLanguage? (given? default? : Option String) : Option String :=
  match given? with
  | some l => if Text.isBlankText l then none else some (Text.trim l)
  | none => default?

/-- The language of a literal whose text came with the language `inherited?`. -/
def literalLanguage (setting : GeneratorSetting) (reader : ArgumentReader) (call : GeneratorCall)
    (inherited? : Option String) : Generation (Option String) :=
  match call.argument? "language" with
  | some argument => do
    let given ← ask reader argument false
    return effectiveLanguage? (some given.value) setting.defaultLanguage?
  | none => return effectiveLanguage? inherited? setting.defaultLanguage?

/-! ## Generators that are always there -/

def generateLiteral (setting : GeneratorSetting) (reader : ArgumentReader) (call : GeneratorCall) :
    Generation Value := do
  let text ← required reader call "text"
  if text.value.isEmpty then throw (.drop (.emptyLiteral call.name))
  else
    let language? ← literalLanguage setting reader call text.language?
    return .literal text.value language?

def generateConstant (setting : GeneratorSetting) (reader : ArgumentReader) (call : GeneratorCall) :
    Generation Value := do
  let text ← ofSetup (call.require "text")
  let language? ← literalLanguage setting reader call text.language?
  return .literal text.value language?

def generateBuiltIn (setting : GeneratorSetting) (reader : ArgumentReader) (call : GeneratorCall) :
    BuiltIn → Generation Value
  | .freshUuid => return .uri (← nextUri)
  | .literal => generateLiteral setting reader call
  | .preferredLabel => generateLiteral setting reader call
  | .constant => generateConstant setting reader call
  | .graphUri => return .uri (← required reader call "text").value

/-! ## Templates -/

/-- Fills the holes of a template, each with the encoded value of its argument, and notes the
language of the first. A hole whose argument is empty has no value. -/
def fill (reader : ArgumentReader) (call : GeneratorCall) (encode : String → String) :
    List Template.Piece → Generation (List Char × Option (Option String))
  | [] => return ([], none)
  | .char c :: rest => do
    let (text, language??) ← fill reader call encode rest
    return (c :: text, language??)
  | .hole name :: rest => do
    let v ← required reader call (String.ofList name)
    if v.value.isEmpty then throw (.drop (.missingValue call.name (String.ofList name)))
    else
      let (text, _) ← fill reader call encode rest
      return ((encode v.value).toList ++ text, some v.language?)

def substitute (reader : ArgumentReader) (call : GeneratorCall) (encode : String → String)
    (template : String) : Generation (String × Option String) := do
  let (text, language??) ← fill reader call encode (Template.pieces template.toList)
  return (String.ofList text, language??.join)

/-- The IRI of a namespace that is given by an alias, or by itself. -/
def Namespaces.resolve (ns : Namespaces) (space : String) : Except SetupError String :=
  if Namespaces.isAbsolute space then .ok space
  else
    match ns.get? space with
    | some iri => .ok iri
    | none => .error (.unknownAlias space (space ++ ":"))

/-- The local part of a URI: the filled template, its name-based UUID, or the filled template with a fresh
identifier appended. -/
def localPart (spec : GeneratorSpec) (filled : String) : Generation String :=
  if spec.shorten then return nameUuid filled
  else if spec.uuid then return filled ++ (← nextSuffix)
  else return filled

/-- A URI made from a template. A local part that is absolute on its own stays as it is. -/
def generateUri (setting : GeneratorSetting) (reader : ArgumentReader) (call : GeneratorCall)
    (spec : GeneratorSpec) (space template : String) : Generation Value := do
  let (filled, _) ← substitute reader call Text.percentEncode template
  let base ← localPart spec filled
  if Namespaces.isAbsolute base then return .uri base
  else
    let iri ← ofSetup (setting.namespaces.resolve space)
    return .uri (iri ++ base)

def generateText (setting : GeneratorSetting) (reader : ArgumentReader) (call : GeneratorCall)
    (template : String) : Generation Value := do
  let (filled, inherited?) ← substitute reader call id template
  let language? ← literalLanguage setting reader call inherited?
  return .literal filled language?

/-! ## Custom generators -/

/-- What a custom generator was given so far: the language of a literal, and the arguments. -/
structure CustomInput where
  language? : Option String
  arguments : List (String × String)
  deriving DecidableEq, Repr, Inhabited

/-- Hands the arguments of a call to a custom generator. The argument `language` is not handed on;
without it, the language is the first that comes with a value. -/
def handOver (reader : ArgumentReader) (className : String) (cls : CustomClass) :
    List Argument → CustomInput → Generation CustomInput
  | [], input => return input
  | argument :: rest, input => do
    let v ← ask reader argument cls.merges
    if argument.name == "language" then
      handOver reader className cls rest { input with language? := some v.value }
    else
      match cls.refusal? argument.name v.value with
      | some message => throw (.drop (.customGenerator className message))
      | none =>
        handOver reader className cls rest
          ⟨input.language?.or v.language?, input.arguments ++ [(argument.name, v.value)]⟩

def customValue (setting : GeneratorSetting) (call : GeneratorCall) (spec : GeneratorSpec)
    (cls : CustomClass) (language? : Option String) (text : String) : Generation Value :=
  match cls.kind with
  | .uuid => return .uri text
  | .uri =>
    match spec.space? with
    | some space =>
      if cls.usesNamespace && !Namespaces.isAbsolute text then do
        let iri ← ofSetup (setting.namespaces.resolve space)
        return .uri (iri ++ text)
      else return .uri text
    | none => return .uri text
  | .literal =>
    if Text.isBlankText text then throw (.drop (.emptyLiteral call.name))
    else return .literal text (effectiveLanguage? language? setting.defaultLanguage?)

def generateCustom (setting : GeneratorSetting) (reader : ArgumentReader) (call : GeneratorCall)
    (spec : GeneratorSpec) (className : String) (cls : CustomClass) : Generation Value := do
  let input ← handOver reader className cls call.arguments ⟨none, []⟩
  match cls.produce setting.mergeDelimiter input.arguments with
  | .ok text => customValue setting call spec cls input.language? text
  | .error message => throw (.drop (.customGenerator className message))

/-! ## Any generator -/

def GeneratorPolicy.generate (policy : GeneratorPolicy) (setting : GeneratorSetting)
    (reader : ArgumentReader) (call : GeneratorCall) : Generation Value :=
  match BuiltIn.ofName? call.name with
  | some builtIn => generateBuiltIn setting reader call builtIn
  | none => do
    let spec ← ofSetup (policy.specOf call)
    match spec.body, spec.space? with
    | .custom className, _ =>
      match policy.classes.get? className with
      | some cls => generateCustom setting reader call spec className cls
      | none => throw (Fault.setup (.unknownClass className))
    | .pattern template, some space => generateUri setting reader call spec space template
    | .pattern template, none => generateText setting reader call template

end Crosswalk
