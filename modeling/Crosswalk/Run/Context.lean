import Crosswalk.Mapping.Basic
import Crosswalk.Value
import Crosswalk.Xml.Location

/-!
# Contexts

A context is a place at which an entity is resolved: a node of the source, what the entity is to
its mapping, and the context that it belongs to. The contexts of one domain node are numbered in the
order in which they are entered. Each but the first belongs to an earlier one, so that the way up ends at the
context of the domain node, which holds the variables.
-/

namespace Crosswalk

open Crosswalk.Xml (Location)

/-- What an entity is to its mapping. The intermediate and the additional entities of an owner are
numbered. -/
inductive Role where
  | domain
  | path
  | range
  | additional (place : Nat)
  | intermediate (place : Nat)
  deriving DecidableEq, Repr, Inhabited

def Role.name : Role → String
  | domain => "Domain"
  | path => "Path"
  | range => "Range"
  | additional k => "Additional(" ++ toString k ++ ")"
  | intermediate k => "Intermediate(" ++ toString k ++ ")"

/-- A resolved entity: its value, and what hangs off it. Types and relationships are IRIs. -/
structure Resolved where
  value : Value
  types : List String
  labels : List (String × Value)
  additionals : List (Attached Resolved)
  deriving Repr, Inhabited

structure Context where
  role : Role
  node : Location
  /-- The place of the node among those selected with it, from one. -/
  position : Nat
  /-- The number of the context that this one belongs to. -/
  parent? : Option Nat
  /-- What tells an additional entity from those of other owners. -/
  discriminator? : Option String
  resolved? : Option Resolved
  /-- Whether what hangs off the entity was written. -/
  linked : Bool
  bindings : Table Value
  deriving Repr, Inhabited

def Context.fresh (role : Role) (node : Location) (position : Nat) (parent? : Option Nat) : Context :=
  ⟨role, node, position, parent?, none, none, false, .empty⟩

structure Contexts where
  all : Array Context
  deriving Repr

namespace Contexts

def empty : Contexts := ⟨#[]⟩

instance : Inhabited Contexts := ⟨empty⟩

def size (cs : Contexts) : Nat :=
  cs.all.size

/-- The number that the next context gets is the number of those before it. -/
def push (cs : Contexts) (c : Context) : Contexts :=
  ⟨cs.all.push c⟩

def get (cs : Contexts) (id : Nat) : Context :=
  cs.all.getD id default

def update (cs : Contexts) (id : Nat) (f : Context → Context) : Contexts :=
  ⟨cs.all.modify id f⟩

/-- The number of the domain context that a context is inside of. The way up only leads to smaller
numbers. -/
def owner (cs : Contexts) (id : Nat) : Nat :=
  match (cs.get id).role, (cs.get id).parent? with
  | .domain, _ => id
  | _, none => id
  | _, some parent => if parent < id then owner cs parent else id
termination_by id

def lookup? (cs : Contexts) (id : Nat) (name : String) : Option Value :=
  (cs.get (cs.owner id)).bindings.get? name

def bind (cs : Contexts) (id : Nat) (name : String) (value : Value) : Contexts :=
  cs.update (cs.owner id) fun c => { c with bindings := c.bindings.insert name value }

end Contexts

end Crosswalk
