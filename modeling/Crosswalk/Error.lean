import Crosswalk.Text.Quoted
import Crosswalk.XPath.Token

/-!
# What can go wrong

Two families of causes. A `RunError` ends what is being done: the mapping, the policy, the
vocabulary, a file or the output is at fault. A `DropCause` only drops the part of the source that
was being resolved, and is reported with the result. `message` is the text shown for each.
-/

namespace Crosswalk

/-- A fault of the mapping or of the generator policy. -/
inductive SetupError where
  | unknownGenerator (name : String)
  | missingArgument (generator argument : String)
  | ambiguousTypes (count : Nat)
  | malformedRelation (relationships entities : Nat)
  | missingGenerator
  | missingType
  | unknownAlias (qualifier name : String)
  | expression (text : String) (fault : XPath.Fault)
  | unknownClass (name : String)
  | malformedJoin (relation : String)
  deriving DecidableEq, Repr

def SetupError.message : SetupError → String
  | unknownGenerator name => "unknown generator: \"" ++ name ++ "\""
  | missingArgument generator argument =>
    "generator \"" ++ generator ++ "\" has no argument \"" ++ argument ++ "\""
  | ambiguousTypes count =>
    "typed literal needs exactly one target type, found " ++ toString count
  | malformedRelation relationships entities =>
    "target relation has " ++ toString relationships ++ " relationship(s) for " ++
      toString entities ++ " intermediate entit(y/ies)"
  | missingGenerator => "entity has neither an instance generator nor a variable reference"
  | missingType => "entity declares no target type"
  | unknownAlias a name => "unknown namespace prefix \"" ++ a ++ "\" in \"" ++ name ++ "\""
  | expression text fault => "invalid XPath expression \"" ++ text ++ "\": " ++ fault.message
  | unknownClass name => "unknown custom generator class \"" ++ name ++ "\""
  | malformedJoin relation => "malformed equality join \"" ++ relation ++ "\""

/-- Why a part of the source gave no output. -/
inductive DropCause where
  | missingValue (generator argument : String)
  | emptyLiteral (generator : String)
  | unboundVariable (name : String)
  | unresolvedIntermediate (place : Nat)
  | domainNotUri (kind : String)
  | invalidIri (value : String)
  | customGenerator (className message : String)
  | graphNotUri
  deriving DecidableEq, Repr

def DropCause.message : DropCause → String
  | missingValue generator argument =>
    "no value for argument \"" ++ argument ++ "\" of generator \"" ++ generator ++ "\""
  | emptyLiteral generator => "generator \"" ++ generator ++ "\" produced an empty literal"
  | unboundVariable name => "variable \"" ++ name ++ "\" is referenced but was never bound"
  | unresolvedIntermediate place => "intermediate node " ++ toString place ++ " resolved to no value"
  | domainNotUri kind => "domain entity must be a URI, got " ++ kind
  | invalidIri value => "value \"" ++ value ++ "\" is not a valid IRI"
  | customGenerator className message =>
    "custom generator \"" ++ className ++ "\" failed: " ++ message
  | graphNotUri => "named graph generator produced a non-URI value"

inductive ReadFault where
  | absent
  | refused
  | notText
  | directory
  deriving DecidableEq, Repr

def ReadFault.message : ReadFault → String
  | absent => "No such file or directory (os error 2)"
  | refused => "Permission denied (os error 13)"
  | notText => "stream did not contain valid UTF-8"
  | directory => "Is a directory (os error 21)"

inductive VocabularyError where
  | missing (condition : String)
  | malformed
  | unknownExtension (extension path : String)
  | unreadable (path : String) (fault : ReadFault)
  deriving DecidableEq, Repr

def VocabularyError.message : VocabularyError → String
  | missing condition =>
    "condition \"" ++ condition ++ "\" needs a terminology, but none was loaded"
  | malformed => "failed to load terminology"
  | unknownExtension extension path =>
    "failed to load terminology: unsupported terminology extension " ++ Text.quoted extension ++
      " for " ++ path
  | unreadable path fault =>
    "failed to load terminology: failed to read " ++ path ++ ": " ++ fault.message

inductive LayoutFault where
  | wrongRoot (wanted found : String)
  | missingChild (element child : String)
  | missingAttribute (element key : String)
  | misplaced (child element : String)
  | missingFirst (element article child : String)
  | severalEntities
  | severalGenerators
  | unknownArgumentKind (argument kind : String)
  | emptyCondition
  | severalConditions
  | unknownCondition (element : String)
  | unnamedGenerator
  | unnamedClass (generator : String)
  | twoBodies (generator : String)
  | noBody (generator : String)
  deriving DecidableEq, Repr

def LayoutFault.message : LayoutFault → String
  | wrongRoot wanted found => "expected <" ++ wanted ++ ">, found <" ++ found ++ ">"
  | missingChild element child => "<" ++ element ++ "> without <" ++ child ++ ">"
  | missingAttribute element key => "<" ++ element ++ "> without a " ++ key ++ " attribute"
  | misplaced child element => "unexpected <" ++ child ++ "> in <" ++ element ++ ">"
  | missingFirst element article child =>
    "<" ++ element ++ "> without " ++ article ++ " <" ++ child ++ ">"
  | severalEntities => "<target_node> declares more than one <entity>"
  | severalGenerators => "entity declares more than one <instance_generator>"
  | unknownArgumentKind argument kind =>
    "argument \"" ++ argument ++ "\" has unknown type \"" ++ kind ++ "\""
  | emptyCondition => "empty <if>"
  | severalConditions => "<if> holds more than one condition"
  | unknownCondition element => "unknown condition <" ++ element ++ ">"
  | unnamedGenerator => "<generator> without a name"
  | unnamedClass generator => "custom generator \"" ++ generator ++ "\" has no generatorClass"
  | twoBodies generator =>
    "generator \"" ++ generator ++ "\" declares both a pattern and a custom class"
  | noBody generator =>
    "generator \"" ++ generator ++ "\" declares neither a pattern nor a custom class"

inductive LoadError where
  | unreadable (path : String)
  | malformed (document : String)
  | layout (document : String) (fault : LayoutFault)
  deriving DecidableEq, Repr

def LoadError.message : LoadError → String
  | unreadable path => "failed to read " ++ path
  | malformed document => "malformed XML in " ++ document
  | layout document fault => "invalid " ++ document ++ " structure: " ++ fault.message

inductive GraphError where
  | invalidTerm (value : String)
  | invalidAlias (qualifier : String)
  | unwritable
  deriving DecidableEq, Repr

def GraphError.message : GraphError → String
  | invalidTerm value => "\"" ++ value ++ "\" cannot be used as an RDF term"
  | invalidAlias a => "serialization failed: invalid prefix " ++ a
  | unwritable => "serialization failed"

inductive SettingsError where
  | unreadable (path : String)
  | unwritable (path : String)
  | malformed (path : String)
  deriving DecidableEq, Repr

def SettingsError.message : SettingsError → String
  | unreadable path => "failed to read config file: " ++ path
  | unwritable path => "failed to write config file: " ++ path
  | malformed path => "invalid config file " ++ path

/-- What ends a run, or keeps it from starting. -/
inductive RunError where
  | setup (error : SetupError)
  | vocabulary (error : VocabularyError)
  | load (error : LoadError)
  | graph (error : GraphError)
  | settings (error : SettingsError)
  deriving DecidableEq, Repr

def RunError.message : RunError → String
  | setup e => e.message
  | vocabulary e => e.message
  | load e => e.message
  | graph e => e.message
  | settings e => e.message

/-- How resolving a part of the source can fail: the run ends, or the part is dropped. -/
inductive Fault where
  | abort (error : RunError)
  | drop (cause : DropCause)
  deriving DecidableEq, Repr

def Fault.setup (e : SetupError) : Fault := .abort (.setup e)

end Crosswalk
