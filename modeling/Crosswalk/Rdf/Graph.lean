import Crosswalk.Rdf.Term
import Crosswalk.Text.Distinct

/-!
# Graphs

A set of statements, in the default graph and in named graphs. Statements arrive in batches: if one
term of a batch is invalid nothing of it is placed, otherwise everything that was not there yet.
-/

namespace Crosswalk.Rdf

/-- The statements, in the order in which they came; none occurs twice. -/
structure Graph where
  quads : List Quad
  deriving DecidableEq, Repr

namespace Graph

def empty : Graph := ⟨[]⟩

instance : Inhabited Graph := ⟨empty⟩

def size (g : Graph) : Nat :=
  g.quads.length

def insert (g : Graph) (q : Quad) : Graph :=
  if g.quads.contains q then g else ⟨g.quads ++ [q]⟩

def insertAll (g : Graph) (quads : List Quad) : Graph :=
  quads.foldl insert g

/-- Places all statements of a batch, or none. -/
def add (g : Graph) (batch : List Statement) : Except GraphError Graph := do
  let quads ← batch.mapM Statement.quad
  .ok (g.insertAll quads)

/-- Places quads one after the other and counts those that were not there yet. -/
def placeEach (g : Graph) : List Quad → Nat × Graph
  | [] => (0, g)
  | q :: rest =>
    let (count, after) := (g.insert q).placeEach rest
    (if g.quads.contains q then count else count + 1, after)

/-- What is answered to a batch and the graph that is left: the number of statements that were new, or the
fault and the graph as it was. -/
def call (g : Graph) (batch : List Statement) : Except GraphError Nat × Graph :=
  match batch.mapM Statement.quad with
  | .ok quads =>
    let (count, after) := g.placeEach quads
    (.ok count, after)
  | .error e => (.error e, g)

/-! ## Queries -/

/-- Whether the statement is in its graph. A statement that is invalid is nowhere. -/
def containsIn (g : Graph) (s : Statement) : Bool :=
  match s.quad with
  | .ok q => g.quads.contains q
  | .error _ => false

def contains (g : Graph) (subject predicate : String) (object : Value) : Bool :=
  match (Statement.mk subject predicate object none).quad with
  | .ok q => g.quads.any fun r =>
    r.subject == q.subject && r.predicate == q.predicate && r.object == q.object
  | .error _ => false

def objects (g : Graph) (subject predicate : String) : List String :=
  Text.distinct <| g.quads.filterMap fun q =>
    if q.subject.text == subject && q.predicate.text == predicate then q.object.text? else none

def typeIri : String := Namespaces.rdf ++ "type"

def subjectsOfType (g : Graph) (type : String) : List String :=
  Text.distinct <| g.quads.filterMap fun q =>
    match q.object with
    | .iri i =>
      if q.predicate.text == typeIri && i.text == type then some q.subject.text else none
    | _ => none

def lines (g : Graph) : List String :=
  Text.sorted (g.quads.map Quad.line)

/-! ## Lemmas -/

theorem mem_insert {g : Graph} {q r : Quad} :
    r ∈ (g.insert q).quads ↔ r = q ∨ r ∈ g.quads := by
  unfold insert
  split
  next h =>
    rw [List.contains_iff_mem] at h
    constructor
    · exact .inr
    · rintro (rfl | hr)
      · exact h
      · exact hr
  next => simp [or_comm]

theorem mem_insertAll {g : Graph} {quads : List Quad} {r : Quad} :
    r ∈ (g.insertAll quads).quads ↔ r ∈ quads ∨ r ∈ g.quads := by
  induction quads generalizing g with
  | nil => simp [insertAll]
  | cons q rest ih =>
    have step : g.insertAll (q :: rest) = (g.insert q).insertAll rest := rfl
    rw [step, ih, mem_insert]
    simp only [List.mem_cons]
    grind

theorem nodup_insert {g : Graph} {q : Quad} (h : g.quads.Nodup) : (g.insert q).quads.Nodup := by
  unfold insert
  split
  · exact h
  next hq =>
    rw [List.contains_iff_mem] at hq
    refine List.nodup_append.2 ⟨h, by simp, ?_⟩
    intro a ha b hb hab
    rw [List.mem_singleton] at hb
    exact hq (hb ▸ hab ▸ ha)

theorem nodup_insertAll {g : Graph} {quads : List Quad} (h : g.quads.Nodup) :
    (g.insertAll quads).quads.Nodup := by
  induction quads generalizing g with
  | nil => exact h
  | cons q rest ih => exact ih (nodup_insert h)

end Graph

end Crosswalk.Rdf
