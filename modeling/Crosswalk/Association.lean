import Crosswalk.Json

/-!
# Associations

Which node of the source became which value. The pairs are kept in the order in which they came,
each once, so that one can go from a resource of the output back to the nodes that it was made from.
-/

namespace Crosswalk

/-- The path of a node, and a value that the node became. -/
structure Association where
  path : String
  value : String
  deriving DecidableEq, Repr, Inhabited

structure AssociationTable where
  pairs : List Association
  deriving DecidableEq, Repr

namespace AssociationTable

def empty : AssociationTable := ⟨[]⟩

instance : Inhabited AssociationTable := ⟨empty⟩

/-- Adds a pair that is not there yet. -/
def record (t : AssociationTable) (a : Association) : AssociationTable :=
  if t.pairs.contains a then t else ⟨t.pairs ++ [a]⟩

def size (t : AssociationTable) : Nat :=
  t.pairs.length

def valuesOf (t : AssociationTable) (path : String) : List String :=
  (t.pairs.filter fun a => a.path == path).map (·.value)

def pathsOf (t : AssociationTable) (value : String) : List String :=
  (t.pairs.filter fun a => a.value == value).map (·.path)

def toJson (t : AssociationTable) : Json :=
  .array (t.pairs.map fun a => .object [("xpath", .string a.path), ("value", .string a.value)])

theorem mem_record {t : AssociationTable} {a b : Association} :
    b ∈ (t.record a).pairs ↔ b = a ∨ b ∈ t.pairs := by
  unfold record
  split
  next h =>
    rw [List.contains_iff_mem] at h
    constructor
    · exact .inr
    · rintro (rfl | hb)
      · exact h
      · exact hb
  next => simp [or_comm]

end AssociationTable

end Crosswalk
