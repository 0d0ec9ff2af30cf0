import Crosswalk.Number.Basic

/-!
# Path expressions

The syntax trees of expressions. A location path is a list of steps from the context node or from
the document node; predicates stand on steps and behind primary expressions.
-/

namespace Crosswalk.XPath

inductive Comparison where
  | equal
  | notEqual
  | less
  | lessEqual
  | greater
  | greaterEqual
  deriving DecidableEq, Repr

/-- The comparison that says the same with its sides exchanged. -/
def Comparison.converse : Comparison → Comparison
  | equal => equal
  | notEqual => notEqual
  | less => greater
  | lessEqual => greaterEqual
  | greater => less
  | greaterEqual => lessEqual

inductive Axis where
  | child
  | descendant
  | descendantOrSelf
  | self
  | parent
  | ancestor
  | ancestorOrSelf
  | attributes
  | followingSibling
  | precedingSibling
  deriving DecidableEq, Repr

def Axis.ofName? : String → Option Axis
  | "child" => some child
  | "descendant" => some descendant
  | "descendant-or-self" => some descendantOrSelf
  | "self" => some self
  | "parent" => some parent
  | "ancestor" => some ancestor
  | "ancestor-or-self" => some ancestorOrSelf
  | "attribute" => some attributes
  | "following-sibling" => some followingSibling
  | "preceding-sibling" => some precedingSibling
  | _ => none

inductive NodeTest where
  | any
  | anyIn (qualifier : String)
  | name (alias? : Option String) (localName : String)
  | text
  | node
  | comment
  deriving DecidableEq, Repr

mutual

inductive Expr where
  | or (left right : Expr)
  | and (left right : Expr)
  | compare (op : Comparison) (left right : Expr)
  | union (left right : Expr)
  | negate (operand : Expr)
  | path (absolute : Bool) (steps : List Step)
  | filter (primary : Expr) (predicates : List Expr) (steps : List Step)
  | literal (text : String)
  | number (value : Number)
  | call (function : String) (arguments : List Expr)

inductive Step where
  | mk (axis : Axis) (test : NodeTest) (predicates : List Expr)

end

instance : Inhabited Expr := ⟨.path false []⟩

/-- The step that `//` stands for. -/
def Step.everyBelow : Step := ⟨.descendantOrSelf, .node, []⟩

/-- The step `.` without predicates, which is also what an empty expression stands for. -/
def Step.here : Step := ⟨.self, .node, []⟩

end Crosswalk.XPath
