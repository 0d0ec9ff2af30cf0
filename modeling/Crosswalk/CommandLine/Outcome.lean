import Crosswalk.CommandLine.Arguments
import Crosswalk.Loading
import Crosswalk.Rdf.Document
import Crosswalk.Run.Execute

/-!
# What the command line brings about

From the arguments and the files they name: warnings, things to be delivered, and perhaps a failure. The
deliveries are in order, and one that fails keeps the later ones from being tried. A graph that cannot be
written leaves its destination empty.
-/

namespace Crosswalk.CommandLine

inductive Content where
  | empty
  | graph (document : Rdf.Document)
  | json (value : Json)

def Content.text : Content → String
  | empty => ""
  | graph document => document.text
  | json value => value.text

structure Delivery where
  path? : Option String
  content : Content

structure Outcome where
  warnings : List String
  deliveries : List Delivery
  failure? : Option RunError

namespace Outcome

def failed (e : RunError) : Outcome :=
  ⟨[], [], some e⟩

/-- Makes the deliveries one after the other up to the first that fails. -/
def deliverAll {m : Type → Type} [Monad m] (deliver : Delivery → m Bool) : List Delivery → m Bool
  | [] => pure true
  | delivery :: rest => do
    if ← deliver delivery then deliverAll deliver rest else pure false

/-- Whether all went well, given whether everything was delivered. -/
def succeeds (o : Outcome) (delivered : Bool) : Bool :=
  delivered && o.failure?.isNone

end Outcome

namespace Arguments

def readPaths (a : Arguments) : List String :=
  a.settings?.toList ++ [a.mapping] ++ a.policy?.toList ++ a.vocabulary?.toList ++ [a.input]

/-- The settings of the file, with what the arguments say put in their place. -/
def settings (a : Arguments) (files : String → FileContent) : Except RunError Settings := do
  let saved ← match a.settings? with
    | some path => (Settings.load path (files path)).mapError .settings
    | none => .ok .default
  .ok { saved with
    uuidWidth? := a.uuidWidth?.or saved.uuidWidth?
    format := a.format?.getD saved.format }

def loadPolicy (a : Arguments) (files : String → FileContent) : Except RunError GeneratorPolicy :=
  match a.policy? with
  | some path => (GeneratorPolicy.load path (files path)).mapError .load
  | none => .ok .empty

def loadVocabulary (a : Arguments) (files : String → FileContent) :
    Except RunError (Option Vocabulary) :=
  match a.vocabulary? with
  | some path => ((Vocabulary.load path (files path)).mapError .vocabulary).map some
  | none => .ok none

/-- The engine, from files that are looked at in a fixed order. -/
def engine (a : Arguments) (files : String → FileContent) : Except RunError Engine := do
  let settings ← a.settings files
  let mapping ← (MappingDocument.load a.mapping (files a.mapping)).mapError .load
  let policy ← a.loadPolicy files
  let vocabulary? ← a.loadVocabulary files
  .ok ⟨mapping, policy, vocabulary?, settings⟩

/-- The tables that are asked for besides the graph. -/
def tables (a : Arguments) (report : Report) : List Delivery :=
  (a.associations?.toList.map fun path => ⟨some path, .json report.associations.toJson⟩) ++
    a.report?.toList.map fun path => ⟨some path, .json report.toJson⟩

def outcome (a : Arguments) (engine : Engine) (report : Report) : Outcome :=
  let warnings := report.diagnostics.map fun d => "warning: " ++ d.line
  match Rdf.Document.ofGraph engine.settings.format engine.namespaces report.graph with
  | .ok document => ⟨warnings, ⟨a.output?, .graph document⟩ :: a.tables report, none⟩
  | .error e => ⟨warnings, [⟨a.output?, .empty⟩], some (.graph e)⟩

def run (a : Arguments) (seed : List UInt8) (files : String → FileContent) : Outcome :=
  let finished : Except RunError Outcome := do
    let engine ← a.engine files
    let document ← (Xml.Document.load a.input (files a.input)).mapError .load
    let report ← engine.execute seed document
    .ok (a.outcome engine report)
  match finished with
  | .ok outcome => outcome
  | .error e => .failed e

end Arguments

end Crosswalk.CommandLine
