import Crosswalk.Proofs.Axes
import Crosswalk.Proofs.ComposedPaths

/-!
# Two slashes

Two slashes stand for a step to all nodes from a node downwards, and the test behind them is made on the
children of these. Without predicates the detour makes no difference: each node below a node is a child of
that node or of another one below it, and of no node elsewhere. So the two steps lead where the one to the
descendants leads, from any nodes, some of which may be below others.

With a predicate they do not, since a position is then counted among the children of one node.
-/

namespace Crosswalk.XPath

open Crosswalk.Xml (Document Location)
open Crosswalk.Xml.Location (ofPath Ordered inOrder mem_inOrder ordered_inOrder)

variable {d : Document} {ns : Namespaces} {ls : List Location} {l m : Location} {test : NodeTest}

/-- What is below a node is a child of that node, or of one below it. -/
theorem mem_descendant_iff_exists_child : m ∈ Axis.descendant.locations d l ↔
    ∃ k ∈ Axis.descendantOrSelf.locations d l, m ∈ Axis.child.locations d k := by
  obtain ⟨p, _ | a⟩ := l
  · show m ∈ d.descendantLocations (ofPath p) ↔
      ∃ k ∈ ofPath p :: d.descendantLocations (ofPath p), m ∈ Axis.child.locations d k
    rw [Document.mem_descendantLocations_iff]
    constructor
    · rintro ⟨i, q, rfl, hm⟩
      -- the node in between has the path without its last index
      rcases List.eq_nil_or_concat q with rfl | ⟨q, j, rfl⟩
      · exact ⟨ofPath p, List.mem_cons_self, Document.mem_childLocations_iff.2 ⟨i, rfl, hm⟩⟩
      · have hpath : p ++ i :: q.concat j = (p ++ i :: q) ++ [j] := by simp
        have hbetween : d.HasNode (ofPath (p ++ i :: q)) := by
          refine Document.HasNode.around (i := j) ?_
          rw [← hpath]
          exact hm
        refine ⟨ofPath (p ++ i :: q), List.mem_cons_of_mem _ ?_, ?_⟩
        · exact Document.mem_descendantLocations_iff.2 ⟨i, q, rfl, hbetween⟩
        · exact Document.mem_childLocations_iff.2 ⟨j, congrArg ofPath hpath, hm⟩
    · rintro ⟨k, hk, hm⟩
      rcases List.mem_cons.1 hk with rfl | hk
      · obtain ⟨i, rfl, hm⟩ := Document.mem_childLocations_iff.1 hm
        exact ⟨i, [], rfl, hm⟩
      · obtain ⟨i, q, rfl, -⟩ := Document.mem_descendantLocations_iff.1 hk
        obtain ⟨j, rfl, hm⟩ := Document.mem_childLocations_iff.1 hm
        refine ⟨i, q ++ [j], ?_, hm⟩
        show ofPath ((p ++ i :: q) ++ [j]) = ofPath (p ++ i :: (q ++ [j]))
        rw [List.append_assoc, List.cons_append]
  · -- an attribute has nothing below it, and is all that its step downwards reaches
    refine iff_of_false List.not_mem_nil ?_
    rintro ⟨k, hk, hm⟩
    rw [List.mem_singleton.1 hk] at hm
    exact List.not_mem_nil hm

/-- The nodes that pass a test among those along an axis. -/
theorem mem_reached_plain_iff {axis : Axis} :
    (m ∈ inOrder (ls.flatMap fun l =>
      (axis.locations d l).filter fun m => test.holds d ns (axis == .attributes) m)) ↔
    test.holds d ns (axis == .attributes) m = true ∧ ∃ l ∈ ls, m ∈ axis.locations d l := by
  simp only [mem_inOrder, List.mem_flatMap, List.mem_filter]
  constructor
  · rintro ⟨l, hl, hm, htest⟩
    exact ⟨htest, l, hl, hm⟩
  · rintro ⟨htest, l, hl, hm⟩
    exact ⟨l, hl, hm, htest⟩

theorem TestPhrase.steps {ts : List Token} (h : TestPhrase ts test []) :
    StepsPhrase ts [⟨.child, test, []⟩] [] :=
  .last (.tested (.omitted _) h (.none _))

/-- A test behind two slashes, and nothing else, is read as a step to the children of all nodes. -/
theorem parse_everywhere {s : String} {ts : List Token} (hs : tokens s = .ok ts)
    (htest : TestPhrase ts test []) :
    Expr.parse ("//" ++ s) = .ok (.path true [.everyBelow, ⟨.child, test, []⟩]) := by
  have htokens : tokens ("//" ++ s) = .ok (.doubleSlash :: ts) := by
    rw [tokens_eq, String.toList_append]
    exact tokensIn_doubleSlash.2 ⟨ts, hs, rfl⟩
  exact parse_eq_ok_of_derives htokens (PathPhrase.level (.everywhere htest.steps))

/-- Two slashes with a test and without predicates select the descendants that pass the test: the steps
that they are read as, at the start of a path or behind one, cannot fail, and they lead from any nodes to
the same ones as the one step to the descendants. -/
theorem walk_everyBelow_child (d : Document) (ns : Namespaces) (test : NodeTest) :
    (∀ starts, ∃ found, walk d ns [.everyBelow, ⟨.child, test, []⟩] starts = .ok found ∧
      walk d ns [⟨.descendant, test, []⟩] starts = .ok found ∧
      ∀ m, m ∈ found ↔
        test.holds d ns false m = true ∧ ∃ l ∈ starts, m ∈ Axis.descendant.locations d l) ∧
    ∀ s ts, tokens s = .ok ts → TestPhrase ts test [] →
      Expr.parse ("//" ++ s) = .ok (.path true [.everyBelow, ⟨.child, test, []⟩]) ∧
      ∀ first rs steps, tokens first = .ok rs → StepsPhrase rs steps [] →
        Expr.parse (first ++ "//" ++ s) = .ok (.path false (steps ++ [.everyBelow, ⟨.child, test, []⟩])) := by
  refine ⟨fun starts => ?_, fun s ts hs htest => ⟨parse_everywhere hs htest, ?_⟩⟩
  · rw [Step.everyBelow, walk_cons_plain, walk_cons_plain, walk_cons_plain, walk, walk]
    refine ⟨_, ?_, rfl, fun m => mem_reached_plain_iff⟩
    refine congrArg Except.ok ((ordered_inOrder _).eq_of_mem_iff (ordered_inOrder _) fun m => ?_)
    rw [mem_reached_plain_iff, mem_reached_plain_iff]
    refine and_congr_right fun _ => ?_
    constructor
    · rintro ⟨k, hk, hm⟩
      obtain ⟨-, l, hl, hk⟩ := mem_reached_plain_iff.1 hk
      exact ⟨l, hl, mem_descendant_iff_exists_child.2 ⟨k, hk, hm⟩⟩
    · rintro ⟨l, hl, hm⟩
      obtain ⟨k, hk, hm⟩ := mem_descendant_iff_exists_child.1 hm
      exact ⟨k, mem_reached_plain_iff.2 ⟨rfl, l, hl, hk⟩, hm⟩
  · intro first rs steps hrs hsteps
    exact parse_joined_everywhere hrs hsteps hs htest.steps

/-- The names in a list, below its last entry and below the list itself; the attribute has none below it. -/
theorem walk_everyBelow_child_name :
    let element (name : String) (content : List Xml.Content) : Xml.Content :=
      .element ⟨none, name⟩ [] [⟨⟨none, "key"⟩, "1"⟩] content
    let d : Document := ⟨[element "list" [element "name" [], element "entry" [element "name" []]]]⟩
    let starts : List Location := [ofPath [0, 1], ⟨[0], some 0⟩, ofPath [0]]
    let named : NodeTest := .name none "name"
    walk d .builtin [.everyBelow, ⟨.child, named, []⟩] starts = .ok [ofPath [0, 0], ofPath [0, 1, 0]] ∧
    walk d .builtin [⟨.descendant, named, []⟩] starts = .ok [ofPath [0, 0], ofPath [0, 1, 0]] ∧
    tokens "name" = .ok [.name "name"] ∧
    Expr.parse ("//" ++ "name") = .ok (.path true [.everyBelow, ⟨.child, named, []⟩]) ∧
    Expr.parse ("name" ++ "//" ++ "name") =
      .ok (.path false [.childNamed "name", .everyBelow, ⟨.child, named, []⟩]) := by
  intro element d starts named
  have hname : tokens "name" = .ok [.name "name"] := by rfl
  have htest : TestPhrase [.name "name"] named [] := .name (.plain _ (by decide)) _
  have hfound : walk d .builtin [⟨.descendant, named, []⟩] starts =
      .ok [ofPath [0, 0], ofPath [0, 1, 0]] := by
    cbv
  obtain ⟨hwalk, hparse⟩ := walk_everyBelow_child d .builtin named
  obtain ⟨found, htwo, hone, -⟩ := hwalk starts
  obtain ⟨habsolute, hbehind⟩ := hparse "name" _ hname htest
  rw [hfound] at hone
  cases hone
  exact ⟨htwo, hfound, hname, habsolute, hbehind "name" _ _ hname htest.steps⟩

end Crosswalk.XPath
