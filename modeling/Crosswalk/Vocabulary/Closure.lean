/-!
# What can be reached

The nodes at the end of a path of at least one edge that begins at one of some nodes. An edge is
followed once: those that leave a node reached so far are taken out of the edges that remain, and
their ends are reached next. Cycles come to rest because edges run out.
-/

namespace Crosswalk.Vocabulary

variable {α : Type} [DecidableEq α]

def leaving (nodes : List α) (edges : List (α × α)) : List (α × α) :=
  edges.filter fun e => nodes.contains e.1

def remaining (nodes : List α) (edges : List (α × α)) : List (α × α) :=
  edges.filter fun e => !nodes.contains e.1

theorem length_remaining_lt {nodes : List α} {edges : List (α × α)} (h : leaving nodes edges ≠ []) :
    (remaining nodes edges).length < edges.length := by
  obtain ⟨e, he⟩ := List.exists_mem_of_ne_nil _ h
  obtain ⟨hmem, hleaves⟩ := List.mem_filter.1 he
  exact List.length_filter_lt_length_iff_exists.2 ⟨e, hmem, by simpa using hleaves⟩

/-- The ends of the edges that can be followed from some nodes, each edge once. -/
def reachedFrom (nodes : List α) (edges : List (α × α)) : List α :=
  if _ : leaving nodes edges = [] then []
  else
    let ends := (leaving nodes edges).map (·.2)
    ends ++ reachedFrom (nodes ++ ends) (remaining nodes edges)
termination_by edges.length
decreasing_by exact length_remaining_lt (by assumption)

def reversed (edges : List (α × α)) : List (α × α) :=
  edges.map fun (a, b) => (b, a)

end Crosswalk.Vocabulary
