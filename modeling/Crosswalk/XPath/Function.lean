import Crosswalk.Text.Blank
import Crosswalk.Text.Search
import Crosswalk.XPath.Token
import Crosswalk.XPath.Value

/-!
# Functions of expressions

The core functions: how many arguments each takes, and its value at given arguments. An optional
argument that is left out stands for the context node.
-/

namespace Crosswalk.XPath

open Crosswalk.Xml (Document Location)

/-- Where an expression is evaluated: a node, and its place in the list it was taken from. -/
structure Context where
  node : Location
  position : Nat
  size : Nat
  deriving DecidableEq, Repr

inductive Function where
  | position
  | last
  | constant (value : Bool)
  | not
  | boolean
  | number
  | count
  | name
  | localName
  | string
  | stringLength
  | normalizeSpace
  | concat
  | contains
  | startsWith
  | substringBefore
  | substringAfter
  deriving DecidableEq, Repr

namespace Function

def ofName? : String → Option Function
  | "position" => some .position
  | "last" => some .last
  | "true" => some (.constant true)
  | "false" => some (.constant false)
  | "not" => some .not
  | "boolean" => some .boolean
  | "number" => some .number
  | "count" => some .count
  | "name" => some .name
  | "local-name" => some .localName
  | "string" => some .string
  | "string-length" => some .stringLength
  | "normalize-space" => some .normalizeSpace
  | "concat" => some .concat
  | "contains" => some .contains
  | "starts-with" => some .startsWith
  | "substring-before" => some .substringBefore
  | "substring-after" => some .substringAfter
  | _ => none

/-- The least and the greatest number of arguments, where there is a greatest. -/
def arity : Function → Nat × Option Nat
  | position | last => (0, some 0)
  | constant _ => (0, none)
  | not | boolean | count => (1, some 1)
  | number | name | localName | string | stringLength | normalizeSpace => (0, some 1)
  | concat => (2, none)
  | contains | startsWith | substringBefore | substringAfter => (2, some 2)

def evaluatesArguments : Function → Bool
  | constant _ => false
  | _ => true

def checkArity (f : Function) (called : String) (given : Nat) : Except Fault Unit :=
  match f.arity with
  | (least, some most) =>
    if least ≤ given && given ≤ most then .ok () else .error (.argumentCount called least most given)
  | (least, none) => if least ≤ given then .ok () else .error (.fewArguments called least)

/-- The text of the `i`-th argument, or of the context node if it is left out. -/
def textArgument (d : Document) (c : Context) (arguments : List Value) (i : Nat) : String :=
  match arguments[i]? with
  | some v => v.toText d
  | none => d.stringValue c.node

/-- The first node of the first argument, or the context node if it is left out. -/
def nodeArgument (c : Context) (called : String) : List Value → Except Fault (Option Location)
  | [] => .ok (some c.node)
  | .nodes ls :: _ => .ok ls.head?
  | _ => .error (.nodesWanted called)

def apply (d : Document) (c : Context) (f : Function) (called : String) (arguments : List Value) :
    Except Fault Value :=
  let text := textArgument d c arguments
  let truth := (arguments.head?.map Value.toBool).getD false
  match f with
  | position => .ok (.number (.ofNat c.position))
  | last => .ok (.number (.ofNat c.size))
  | constant b => .ok (.truth b)
  | not => .ok (.truth !truth)
  | boolean => .ok (.truth truth)
  | number => .ok (.number (.ofText (text 0)))
  | count =>
    match arguments with
    | .nodes ls :: _ => .ok (.number (.ofNat ls.length))
    | _ => .error (.nodesWanted called)
  | name => do
    let l? ← nodeArgument c called arguments
    .ok (.text ((l?.map d.displayName).getD ""))
  | localName => do
    let l? ← nodeArgument c called arguments
    .ok (.text (((l?.bind d.nameAt?).map (·.localName)).getD ""))
  | string => .ok (.text (text 0))
  | stringLength => .ok (.number (.ofNat (text 0).length))
  | normalizeSpace => .ok (.text (" ".intercalate (Text.words (text 0))))
  | concat => .ok (.text (String.join (arguments.map (·.toText d))))
  | contains => .ok (.truth (Text.occurs (text 1) (text 0)))
  | startsWith => .ok (.truth (Text.startsWith (text 1) (text 0)))
  | substringBefore => .ok (.text (((Text.cut? (text 1) (text 0)).map (·.1)).getD ""))
  | substringAfter => .ok (.text (((Text.cut? (text 1) (text 0)).map (·.2)).getD ""))

end Function

end Crosswalk.XPath
