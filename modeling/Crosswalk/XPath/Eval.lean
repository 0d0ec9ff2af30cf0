import Crosswalk.Namespaces
import Crosswalk.XPath.Function

/-!
# Evaluating expressions

A step goes from every node along its axis, keeps what its node test and its predicates keep, and
the results of all nodes are brought into document order, each node once. Positions in a predicate
count along the axis, so on an axis that runs backwards the nearest node is the first.
-/

namespace Crosswalk.XPath

open Crosswalk.Xml (Document Location)

/-- The nodes along an axis, nearest first on an axis that runs backwards. -/
def Axis.locations (d : Document) (l : Location) : Axis → List Location
  | self => [l]
  | child => if l.isAttribute then [] else d.childLocations l
  | descendant => if l.isAttribute then [] else d.descendantLocations l
  | descendantOrSelf => if l.isAttribute then [l] else l :: d.descendantLocations l
  | parent => l.parent?.toList
  | ancestor => l.ancestors
  | ancestorOrSelf => l :: l.ancestors
  | attributes => if l.isAttribute then [] else d.attributeLocations l
  | followingSibling => if l.isAttribute then [] else d.followingSiblings l
  | precedingSibling => if l.isAttribute then [] else l.precedingSiblings

/-- Whether a node passes a test. A test by name asks for attributes on the axis of attributes and for
elements on the others; a name without an alias stands for that local name in any namespace. -/
def NodeTest.holds (d : Document) (ns : Namespaces) (onAttributes : Bool) (l : Location) :
    NodeTest → Bool
  | node => true
  | text => !l.isAttribute && (d.contentAt? l).any Xml.Content.isText
  | comment => !l.isAttribute && (d.contentAt? l).any Xml.Content.isComment
  | any => l.isAttribute == onAttributes && (d.nameAt? l).isSome
  | anyIn a =>
    match ns.get? a with
    | none => false
    | some uri => l.isAttribute == onAttributes && (d.nameAt? l).any fun n => n.space == some uri
  | name a? base =>
    l.isAttribute == onAttributes && (d.nameAt? l).any fun n =>
      n.localName == base &&
        match a? with
        | none => true
        | some a => (ns.get? a).any fun uri => n.space == some uri

/-- The nodes that a predicate keeps, given its value in every context; positions go on from
`position`. -/
def keepWhere (value : Context → Except Fault Value) (size : Nat) :
    Nat → List Location → Except Fault (List Location)
  | _, [] => .ok []
  | position, l :: rest => do
    let v ← value ⟨l, position, size⟩
    let more ← keepWhere value size (position + 1) rest
    .ok (if v.keeps position then l :: more else more)

/-- What a function gives at every location, joined in order. -/
def gather (f : Location → Except Fault (List Location)) :
    List Location → Except Fault (List Location)
  | [] => .ok []
  | l :: rest => do
    let first ← f l
    let more ← gather f rest
    .ok (first ++ more)

mutual

def Expr.eval (d : Document) (ns : Namespaces) : Expr → Context → Except Fault Value
  | .or l r, c => do
    let left ← l.eval d ns c
    if left.toBool then .ok (.truth true) else .ok (.truth (← r.eval d ns c).toBool)
  | .and l r, c => do
    let left ← l.eval d ns c
    if left.toBool then .ok (.truth (← r.eval d ns c).toBool) else .ok (.truth false)
  | .compare op l r, c => do
    let left ← l.eval d ns c
    let right ← r.eval d ns c
    .ok (.truth (left.compare d op right))
  | .union l r, c => do
    let left ← l.eval d ns c
    let right ← r.eval d ns c
    match left, right with
    | .nodes ls, .nodes rs => .ok (.nodes (Location.inOrder (ls ++ rs)))
    | _, _ => .error .unionOfValues
  | .negate e, c => do
    let v ← e.eval d ns c
    .ok (.number (v.toNumber d).negate)
  | .literal s, _ => .ok (.text s)
  | .number n, _ => .ok (.number n)
  | .path absolute steps, c => do
    .ok (.nodes (← walk d ns steps [if absolute then .root else c.node]))
  | .filter primary predicates steps, c => do
    match ← primary.eval d ns c with
    | .nodes ls => do
      let kept ← keepAll d ns predicates ls
      .ok (.nodes (← walk d ns steps kept))
    | _ => .error .filterOfValue
  | .call called arguments, c =>
    match Function.ofName? called with
    | none => .error (.unknownFunction called)
    | some f => do
      f.checkArity called arguments.length
      if f.evaluatesArguments then f.apply d c called (← evalAll d ns arguments c)
      else f.apply d c called []

def evalAll (d : Document) (ns : Namespaces) : List Expr → Context → Except Fault (List Value)
  | [], _ => .ok []
  | e :: rest, c => do
    let v ← e.eval d ns c
    let more ← evalAll d ns rest c
    .ok (v :: more)

/-- The nodes that all predicates keep, one predicate after the other. -/
def keepAll (d : Document) (ns : Namespaces) :
    List Expr → List Location → Except Fault (List Location)
  | [], ls => .ok ls
  | p :: rest, ls => do
    let kept ← keepWhere (fun c => p.eval d ns c) ls.length 1 ls
    keepAll d ns rest kept

def walk (d : Document) (ns : Namespaces) :
    List Step → List Location → Except Fault (List Location)
  | [], ls => .ok ls
  | s :: rest, ls => do
    let reached ← gather (fun l => s.from d ns l) ls
    walk d ns rest (Location.inOrder reached)

/-- The nodes that a step leads to from one node, in the order of its axis. -/
def Step.from (d : Document) (ns : Namespaces) : Step → Location → Except Fault (List Location)
  | ⟨axis, test, predicates⟩, l =>
    keepAll d ns predicates
      ((axis.locations d l).filter fun m => test.holds d ns (axis == .attributes) m)

end

def Expr.evaluate (d : Document) (ns : Namespaces) (e : Expr) (node : Location) :
    Except Fault Value :=
  e.eval d ns ⟨node, 1, 1⟩

end Crosswalk.XPath
