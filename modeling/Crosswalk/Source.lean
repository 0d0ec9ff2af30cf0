import Crosswalk.XPath.Eval
import Crosswalk.XPath.Parser

/-!
# Reading the source

The document that is mapped, with the aliases that expressions may use. A value can be read from it
in four ways: the first value, the first value together with its node, all values merged, and
whether there is any.

Nodes that are joined by a key are found through an index from keys to nodes. An index is built
when its name is first asked for and kept under that name; a build that fails leaves nothing.
-/

namespace Crosswalk

open Crosswalk.Xml (Document Location)

structure Source where
  document : Document
  namespaces : Namespaces
  mergeDelimiter : String

namespace Source

/-- The value of an expression at a node. Blanks around the expression do not count. -/
def evaluate (src : Source) (node : Location) (expression : String) :
    Except SetupError XPath.Value :=
  let expression := Text.trim expression
  let value := do
    let e ← XPath.Expr.parse expression
    e.evaluate src.document src.namespaces node
  value.mapError (.expression expression)

/-- The nodes that an expression selects, in document order. -/
def select (src : Source) (node : Location) (expression : String) :
    Except SetupError (List Location) := do
  match ← src.evaluate node expression with
  | .nodes ls => .ok ls
  | _ => .error (.expression (Text.trim expression) .selectsNoNodes)

def nodeText (src : Source) (l : Location) : String :=
  Text.trim (src.document.stringValue l)

/-- The first value, without blanks around it; empty when there is none. -/
def scalar (src : Source) (node : Location) (expression : String) : Except SetupError String := do
  let v ← src.evaluate node expression
  .ok (Text.trim (v.toText src.document))

def scalarWithNode (src : Source) (node : Location) (expression : String) :
    Except SetupError (String × Option Location) := do
  match ← src.evaluate node expression with
  | .nodes ls => .ok ((ls.head?.map src.nodeText).getD "", ls.head?)
  | v => .ok (Text.trim (v.toText src.document), none)

/-- The values that are not empty, joined by the merge delimiter. -/
def merged (src : Source) (node : Location) (expression : String) : Except SetupError String := do
  match ← src.evaluate node expression with
  | .nodes ls =>
    .ok (src.mergeDelimiter.intercalate ((ls.map src.nodeText).filter fun s => !s.isEmpty))
  | v => .ok (Text.trim (v.toText src.document))

/-- Whether there is a value: a node whose text is not blank, or a value that is true and not
blank. -/
def hasValue (src : Source) (node : Location) (expression : String) : Except SetupError Bool := do
  match ← src.evaluate node expression with
  | .nodes ls => .ok (ls.any fun l => !(src.nodeText l).isEmpty)
  | v => .ok (v.toBool && !(Text.trim (v.toText src.document)).isEmpty)

def path (src : Source) (l : Location) : String :=
  src.document.structuralPath l

def language? (src : Source) (l : Location) : Option String :=
  src.document.languageAt? l

end Source

/-! ## Joins -/

/-- The nodes that carry each key, in document order. -/
abbrev JoinIndex := Table (List Location)

structure JoinCache where
  indexes : Table JoinIndex
  deriving DecidableEq, Repr

namespace JoinCache

def empty : JoinCache := ⟨.empty⟩

instance : Inhabited JoinCache := ⟨empty⟩

def builds (cache : JoinCache) : Nat :=
  cache.indexes.size

end JoinCache

namespace Source

/-- The name of an index. A relative expression selects other nodes at another base, so the base
is part of the name then. -/
def joinName (domain path range : String) : Option String → String
  | some base => domain ++ "/" ++ path ++ "/" ++ range ++ "@" ++ base
  | none => domain ++ "/" ++ path ++ "/" ++ range

/-- The key of a node: what the key expression gives at it, or at the node around it when that is
empty. -/
def joinKey (src : Source) (keyExpression : String) (l : Location) : Except SetupError String := do
  let key ← src.scalar l keyExpression
  if !key.isEmpty then .ok key
  else
    match l.parent? with
    | some p => src.scalar p keyExpression
    | none => .ok key

/-- Adds nodes to an index under their keys; a node without a key is left out. -/
def indexNodes (src : Source) (keyExpression : String) :
    JoinIndex → List Location → Except SetupError JoinIndex
  | index, [] => .ok index
  | index, l :: rest => do
    let key ← src.joinKey keyExpression l
    if key.isEmpty then src.indexNodes keyExpression index rest
    else
      let before := (index.get? key).getD []
      src.indexNodes keyExpression (index.insert key (before ++ [l])) rest

def buildIndex (src : Source) (base : Location) (range keyExpression : String) :
    Except SetupError JoinIndex := do
  let nodes ← src.select base range
  src.indexNodes keyExpression .empty nodes

/-- The nodes of the index of that name that carry `value`, and the indexes afterwards. The other
arguments say how to build the index, and only count when it is not there yet. -/
def joined (src : Source) (cache : JoinCache) (name : String) (base : Location)
    (range keyExpression value : String) : Except SetupError (List Location × JoinCache) :=
  match cache.indexes.get? name with
  | some index => .ok ((index.get? value).getD [], cache)
  | none => do
    let index ← src.buildIndex base range keyExpression
    .ok ((index.get? value).getD [], ⟨cache.indexes.insert name index⟩)

end Source

end Crosswalk
