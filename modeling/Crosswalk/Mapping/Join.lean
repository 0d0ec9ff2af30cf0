import Crosswalk.Mapping.Basic

/-!
# Joins and continued ranges

Two readings of what a link says about the source. A relation that equates two key expressions is
a join: it goes to the nodes whose key equals that of the domain node, directly or by way of nodes in
between, which are joined first. And a range that is written as a continuation of the path goes on
from where the path leads.
-/

namespace Crosswalk

/-- The key expression of the nodes that are joined from, and that of the nodes joined to. -/
structure KeyPair where
  source : String
  target : String
  deriving DecidableEq, Repr, Inhabited

structure JoinHop where
  node : String
  keys : KeyPair
  deriving DecidableEq, Repr, Inhabited

structure Join where
  keys : KeyPair
  hop? : Option JoinHop
  deriving DecidableEq, Repr, Inhabited

/-- The two sides of an equation; neither is blank, and there is only one sign. -/
def KeyPair.ofRelation? (relation : String) : Option KeyPair :=
  match Text.cut? "==" relation with
  | some (left, right) =>
    let source := Text.trim left
    let target := Text.trim right
    if source.isEmpty || target.isEmpty || Text.occurs "==" target then none
    else some ⟨source, target⟩
  | none => none

/-- The join that a relation with one equation describes, or with two and a node between them. -/
def SourceRelation.join? (r : SourceRelation) : Option Join :=
  match r.relations, r.nodes with
  | [relation], [] => (KeyPair.ofRelation? relation).map fun keys => ⟨keys, none⟩
  | [first, second], [node] =>
    if Text.isBlankText node then none
    else
      match KeyPair.ofRelation? first, KeyPair.ofRelation? second with
      | some keys, some onward => some ⟨keys, some ⟨Text.trim node, onward⟩⟩
      | _, _ => none
  | _, _ => none

def SourceRelation.join (r : SourceRelation) : Except SetupError Join :=
  match r.join? with
  | some j => .ok j
  | none => .error (.malformedJoin r.expression)

def dropSlashes (s : String) : String :=
  String.ofList (s.toList.dropWhile (· == '/'))

/-- The expression of a range from the nodes of a path: what follows the relation, if the range begins
with the whole of it. -/
def rangeRemainder (range relation : String) : String :=
  let range := Text.trim range
  let relation := Text.trim relation
  if relation.isEmpty then range
  else
    match Text.dropStart? relation range with
    | some rest =>
      if rest.isEmpty then ""
      else if Text.startsWith "/" rest then dropSlashes rest
      else range
    | none => range

end Crosswalk
