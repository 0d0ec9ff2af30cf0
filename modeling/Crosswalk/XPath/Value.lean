import Crosswalk.Number.Text
import Crosswalk.XPath.Expr
import Crosswalk.Xml.Location

/-!
# Values of expressions

An expression gives nodes, a text, a number or a truth value. Each kind can be read as each of the
others except nodes, and comparing two values reads both as one kind: a comparison with nodes holds
when it holds for one of them.
-/

namespace Crosswalk.XPath

open Crosswalk.Xml (Document Location)

inductive Value where
  | nodes (locations : List Location)
  | text (value : String)
  | number (value : Number)
  | truth (value : Bool)
  deriving DecidableEq, Repr

namespace Value

def toBool : Value → Bool
  | nodes ls => !ls.isEmpty
  | text s => !s.isEmpty
  | number n => !n.isZero && !n.isNaN
  | truth b => b

/-- The text of a value; nodes have that of the first of them. -/
def toText (d : Document) : Value → String
  | nodes ls => (ls.head?.map d.stringValue).getD ""
  | text s => s
  | number n => n.toText
  | truth b => if b then "true" else "false"

def toNumber (d : Document) : Value → Number
  | number n => n
  | truth b => .ofNat (if b then 1 else 0)
  | v => .ofText (v.toText d)

/-- Compares two values neither of which is nodes. Equality reads both as truth values if one is, else
as numbers if one is, else as texts; order always reads them as numbers. -/
def compareAtoms (d : Document) (op : Comparison) (l r : Value) : Bool :=
  let equal :=
    match l, r with
    | truth _, _ | _, truth _ => l.toBool == r.toBool
    | number _, _ | _, number _ => (l.toNumber d).equal (r.toNumber d)
    | _, _ => l.toText d == r.toText d
  match op with
  | .equal => equal
  | .notEqual => !equal
  | .less => (l.toNumber d).less (r.toNumber d)
  | .lessEqual => (l.toNumber d).lessEq (r.toNumber d)
  | .greater => (r.toNumber d).less (l.toNumber d)
  | .greaterEqual => (r.toNumber d).lessEq (l.toNumber d)

/-- Compares two values. Nodes against a truth value count as whether there are any; against anything
else, one of them has to satisfy the comparison with its text. -/
def compare (d : Document) (op : Comparison) : Value → Value → Bool
  | nodes ls, nodes rs =>
    ls.any fun l => rs.any fun r =>
      compareAtoms d op (text (d.stringValue l)) (text (d.stringValue r))
  | nodes ls, truth b => compareAtoms d op (truth !ls.isEmpty) (truth b)
  | truth b, nodes rs => compareAtoms d op (truth b) (truth !rs.isEmpty)
  | nodes ls, v => ls.any fun l => compareAtoms d op (text (d.stringValue l)) v
  | v, nodes rs => rs.any fun r => compareAtoms d op v (text (d.stringValue r))
  | l, r => compareAtoms d op l r

/-- Whether a predicate of this value keeps the node at `position`: a number keeps the node at that
position, any other value decides by its truth. -/
def keeps (position : Nat) : Value → Bool
  | number n => n.equal (.ofNat position)
  | v => v.toBool

end Value

end Crosswalk.XPath
