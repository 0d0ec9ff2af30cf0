import Crosswalk.CommandLine.Outcome

/-!
# The program

Reads the files that the arguments name, and writes what comes of them.
-/

namespace Crosswalk.Program

open Crosswalk.CommandLine

def readFault : IO.Error → ReadFault
  | .permissionDenied _ _ _ => .refused
  | .inappropriateType _ _ _ => .directory
  | _ => .absent

def readFile (path : String) : IO FileContent := do
  try
    let bytes ← IO.FS.readBinFile path
    match String.fromUTF8? bytes with
    | some text => return .ok text
    | none => return .error .notText
  catch e => return .error (readFault e)

def readFiles (paths : List String) : IO (String → FileContent) := do
  let contents ← paths.mapM fun path => do
    let content ← readFile path
    return (path, content)
  return fun path => (contents.lookup path).getD (.error .absent)

def deliver (delivery : Delivery) : IO Bool := do
  try
    match delivery.path? with
    | some path => IO.FS.writeFile path delivery.content.text
    | none => IO.print delivery.content.text
    return true
  catch e => do
    IO.eprintln ("Error: " ++ toString e)
    return false

def run (arguments : Arguments) : IO UInt32 := do
  let seed ← IO.getRandomBytes 16
  let files ← readFiles arguments.readPaths
  let outcome := arguments.run seed.toList files
  for warning in outcome.warnings do IO.eprintln warning
  let delivered ← Outcome.deliverAll deliver outcome.deliveries
  match outcome.failure? with
  | some e => IO.eprintln ("Error: " ++ e.message)
  | none => pure ()
  return if outcome.succeeds delivered then 0 else 1

def start (words : List String) : IO UInt32 := do
  match Arguments.ofWords words with
  | .ok arguments => run arguments
  | .error .help => do
    IO.println usage
    return 0
  | .error .version => do
    IO.println version
    return 0
  | .error (.misuse fault) => do
    IO.eprintln ("error: " ++ fault.message)
    return 2

end Crosswalk.Program

def main (words : List String) : IO UInt32 :=
  Crosswalk.Program.start words
