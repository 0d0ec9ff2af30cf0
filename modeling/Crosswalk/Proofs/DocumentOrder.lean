import Crosswalk.Proofs.SelectedNodes
import Mathlib.Data.List.Permutation
import Mathlib.Data.List.Sort

/-!
# Document order as one walk through the tree

The order of locations compares child indexes. That it is the order of the document is said here without
them: the nodes are listed by a walk through the tree (an element, then its attributes, then its
children), and a node is numbered by its place in the walk. What an expression selects increases in
these numbers, and so it is the listing with nodes left out.
-/

namespace Crosswalk.Xml

open Location (Ordered)

/-! ## The walk -/

namespace Content

mutual

/-- A node with all that belongs to it: an element, then its attributes, then its children. -/
def nodes (path : List Nat) : Content → List Location
  | element _ _ as cs =>
    .ofPath path :: (((List.range as.length).map fun a => ⟨path, some a⟩) ++ nodesAmong path 0 cs)
  | text _ => [.ofPath path]
  | comment _ => [.ofPath path]
  | instruction _ _ => [.ofPath path]

/-- The children of `path` from the `i`-th on, each with all that belongs to it. -/
def nodesAmong (path : List Nat) (i : Nat) : List Content → List Location
  | [] => []
  | c :: cs => c.nodes (path ++ [i]) ++ nodesAmong path (i + 1) cs

end

variable {l m : Location} {path : List Nat}

theorem nodes_eq (path : List Nat) (c : Content) : c.nodes path =
    .ofPath path :: (((List.range c.attributes.length).map fun a => ⟨path, some a⟩) ++
      nodesAmong path 0 c.children) := by
  cases c <;> rfl

mutual

theorem exists_of_mem_nodes (c : Content) {path : List Nat} (h : l ∈ c.nodes path) :
    ∃ q, l.path = path ++ q := by
  cases c with
  | element n bs as cs =>
    rw [nodes, List.mem_cons, List.mem_append] at h
    rcases h with rfl | h | h
    · exact ⟨[], (List.append_nil path).symm⟩
    · obtain ⟨a, -, rfl⟩ := List.mem_map.1 h
      exact ⟨[], (List.append_nil path).symm⟩
    · obtain ⟨j, q, -, hq⟩ := exists_of_mem_nodesAmong cs h
      exact ⟨j :: q, hq⟩
  | text | comment | instruction =>
    rw [nodes, List.mem_singleton] at h
    exact ⟨[], by rw [h, Location.ofPath, List.append_nil]⟩

theorem exists_of_mem_nodesAmong (cs : List Content) {path : List Nat} {i : Nat}
    (h : l ∈ nodesAmong path i cs) : ∃ j q, i ≤ j ∧ l.path = path ++ j :: q := by
  cases cs with
  | nil => cases h
  | cons c rest =>
    rw [nodesAmong, List.mem_append] at h
    rcases h with h | h
    · obtain ⟨q, hq⟩ := exists_of_mem_nodes c h
      exact ⟨i, q, Nat.le_refl i, by rw [hq, List.append_assoc]; rfl⟩
    · obtain ⟨j, q, hj, hq⟩ := exists_of_mem_nodesAmong rest h
      exact ⟨j, q, Nat.le_of_succ_le hj, hq⟩

end

theorem pathBefore_append (p q r : List Nat) :
    Location.pathBefore (p ++ q) (p ++ r) = Location.pathBefore q r := by
  induction p with
  | nil => rfl
  | cons i p ih => simp [Location.pathBefore, ih]

/-- A node and its attributes are before what is below the node. -/
theorem before_of_below {j : Nat} {q : List Nat} (hl : l.path = path) (hm : m.path = path ++ j :: q) :
    l.before m = true := by
  have hbelow := pathBefore_append path [] (j :: q)
  rw [List.append_nil] at hbelow
  exact Location.before_iff.2 (.inl (by rw [hl, hm, hbelow]; rfl))

mutual

/-- The walk is in the order of locations. -/
theorem ordered_nodes (c : Content) (path : List Nat) : Ordered (c.nodes path) := by
  cases c with
  | element n bs as cs =>
    rw [nodes, Ordered, List.pairwise_cons, List.pairwise_append, List.pairwise_map]
    refine ⟨?_, ?_, ordered_nodesAmong cs path 0, ?_⟩
    · intro l hl
      rw [List.mem_append] at hl
      rcases hl with hl | hl
      · obtain ⟨a, -, rfl⟩ := List.mem_map.1 hl
        exact Location.before_iff.2 (.inr ⟨rfl, Nat.succ_pos a⟩)
      · obtain ⟨j, q, -, hq⟩ := exists_of_mem_nodesAmong cs hl
        exact before_of_below rfl hq
    · refine List.Pairwise.imp ?_ List.pairwise_lt_range
      intro a b hab
      exact Location.before_iff.2 (.inr ⟨rfl, Nat.succ_lt_succ hab⟩)
    · intro l hl m hm
      obtain ⟨a, -, rfl⟩ := List.mem_map.1 hl
      obtain ⟨j, q, -, hq⟩ := exists_of_mem_nodesAmong cs hm
      exact before_of_below rfl hq
  | text | comment | instruction => exact Location.ordered_singleton _

theorem ordered_nodesAmong (cs : List Content) (path : List Nat) (i : Nat) :
    Ordered (nodesAmong path i cs) := by
  cases cs with
  | nil => exact .nil
  | cons c rest =>
    rw [nodesAmong, Ordered, List.pairwise_append]
    refine ⟨ordered_nodes c _, ordered_nodesAmong rest path (i + 1), ?_⟩
    intro l hl m hm
    obtain ⟨q, hq⟩ := exists_of_mem_nodes c hl
    obtain ⟨j, r, hj, hr⟩ := exists_of_mem_nodesAmong rest hm
    rw [List.append_assoc, List.singleton_append] at hq
    refine Location.before_iff.2 (.inl ?_)
    rw [hq, hr, pathBefore_append, Location.pathBefore, decide_eq_true (Nat.lt_of_succ_le hj),
      Bool.true_or]

end

/-- The walk comes past all nodes. -/
theorem nodes_subset_nodesAmong {cs : List Content} {c : Content} {j : Nat} (i : Nat)
    (h : cs[j]? = some c) : c.nodes (path ++ [i + j]) ⊆ nodesAmong path i cs := by
  induction cs generalizing i j with
  | nil => cases h
  | cons e rest ih =>
    cases j with
    | zero =>
      cases h
      exact List.subset_append_left ..
    | succ j =>
      have hrest := ih (i + 1) h
      rw [Nat.add_assoc, Nat.add_comm 1 j] at hrest
      exact List.subset_append_of_subset_right _ hrest

theorem nodes_subset_of_follow? {cs : List Content} {c : Content} {q : List Nat}
    (h : Document.follow? cs q = some c) : c.nodes (path ++ q) ⊆ nodesAmong path 0 cs := by
  fun_induction Document.follow? cs q generalizing path with
  | case1 => cases h
  | case2 siblings i =>
    have hi : c.nodes (path ++ [0 + i]) ⊆ nodesAmong path 0 siblings := nodes_subset_nodesAmong 0 h
    rwa [Nat.zero_add] at hi
  | case3 siblings i j rest e he ih =>
    have hi : e.nodes (path ++ [0 + i]) ⊆ nodesAmong path 0 siblings := nodes_subset_nodesAmong 0 he
    rw [Nat.zero_add, nodes_eq] at hi
    have hbelow : c.nodes ((path ++ [i]) ++ (j :: rest)) ⊆ nodesAmong (path ++ [i]) 0 e.children := ih h
    rw [List.append_assoc, List.singleton_append] at hbelow
    refine fun l hl => hi (List.mem_cons_of_mem _ (List.mem_append_right _ (hbelow hl)))
  | case4 => cases h

end Content

namespace Document

variable {d : Document} {l m : Location}

/-- All nodes of a document, in document order. -/
def nodes (d : Document) : List Location :=
  .root :: Content.nodesAmong [] 0 d.children

/-- The number of a node among the nodes that are no attributes. -/
def number (d : Document) (l : Location) : Nat :=
  (d.nodes.filter fun m => !m.isAttribute).idxOf l

/-- What nodes are compared by: the number of the node, or of the owner of an attribute, and the place
among the attributes. -/
def orderKey (d : Document) (l : Location) : Nat × Nat :=
  (d.number l.owner, l.slot)

theorem ordered_nodes (d : Document) : Ordered d.nodes := by
  refine List.pairwise_cons.2 ⟨fun l hl => ?_, Content.ordered_nodesAmong d.children [] 0⟩
  obtain ⟨j, q, -, hq⟩ := Content.exists_of_mem_nodesAmong d.children hl
  exact Content.before_of_below rfl hq

mutual

theorem hasNode_of_mem_nodes (c : Content) {path : List Nat}
    (hc : d.contentAt? (.ofPath path) = some c) (hbelow : siblingsAt d.children path = c.children)
    (h : l ∈ c.nodes path) : d.HasNode l := by
  have hself : d.HasNode (.ofPath path) :=
    ⟨.inr (Option.isSome_of_eq_some hc), by simp [Location.ofPath, Location.isAttribute]⟩
  cases c with
  | element n bs as cs =>
    rw [Content.nodes, List.mem_cons, List.mem_append] at h
    rcases h with rfl | h | h
    · exact hself
    · refine hasNode_of_mem_attributes (l := .ofPath path) ?_
      rw [attributeLocations, hc]
      exact h
    · exact hasNode_of_mem_nodesAmong cs (by rw [List.drop_zero]; exact hbelow) h
  | text | comment | instruction => exact List.mem_singleton.1 h ▸ hself

theorem hasNode_of_mem_nodesAmong (cs : List Content) {path : List Nat} {i : Nat}
    (hcs : (siblingsAt d.children path).drop i = cs) (h : l ∈ Content.nodesAmong path i cs) :
    d.HasNode l := by
  cases cs with
  | nil => cases h
  | cons c rest =>
    have hc : (siblingsAt d.children path)[i]? = some c := by
      rw [← List.head?_drop, hcs, List.head?_cons]
    have hbelow : siblingsAt d.children (path ++ [i]) = c.children := by
      simp only [siblingsAt_append, siblingsAt, hc]
    have hrest : (siblingsAt d.children path).drop (i + 1) = rest := by
      rw [← List.tail_drop, hcs, List.tail_cons]
    rw [Content.nodesAmong, List.mem_append] at h
    rcases h with h | h
    · exact hasNode_of_mem_nodes c (contentAt?_child hc none) hbelow h
    · exact hasNode_of_mem_nodesAmong rest hrest h

end

/-- The listing has the nodes of the document and nothing else. -/
theorem mem_nodes_iff : l ∈ d.nodes ↔ d.HasNode l := by
  constructor
  · intro h
    rcases List.mem_cons.1 h with rfl | h
    · exact d.hasNode_ofPath_nil
    · exact hasNode_of_mem_nodesAmong _ rfl h
  · intro h
    obtain ⟨p, a?⟩ := l
    by_cases hp : p = []
    · cases a? with
      | none =>
        rw [hp]
        exact List.mem_cons_self
      | some a => exact absurd hp (h.path_ne_nil rfl)
    · obtain ⟨c, hc⟩ := Option.isSome_iff_exists.1 (h.isNode.resolve_left hp)
      have hwalk : c.nodes ([] ++ p) ⊆ Content.nodesAmong [] 0 d.children :=
        Content.nodes_subset_of_follow? hc
      rw [Content.nodes_eq] at hwalk
      refine List.mem_cons_of_mem _ (hwalk ?_)
      cases a? with
      | none => exact List.mem_cons_self
      | some a =>
        have ha := h.isOwned rfl
        simp only [attributeAt?, hc, Option.bind_eq_bind, Option.bind_some] at ha
        refine List.mem_cons_of_mem _ (List.mem_append_left _ (List.mem_map.2 ⟨a, ?_, rfl⟩))
        simpa using ha

/-- In an ordered list, what is before something has the smaller index. -/
theorem idxOf_lt_of_before {ls : List Location} (hls : Ordered ls) (hl : l ∈ ls) (hm : m ∈ ls)
    (h : l.before m = true) : ls.idxOf l < ls.idxOf m := by
  by_contra hle
  rw [Nat.not_lt] at hle
  rcases Nat.lt_or_eq_of_le hle with hlt | heq
  · have hml := List.pairwise_iff_getElem.1 hls _ _ (List.idxOf_lt_length_of_mem hm)
      (List.idxOf_lt_length_of_mem hl) hlt
    rw [List.getElem_idxOf, List.getElem_idxOf, Location.before_asymm h] at hml
    cases hml
  · rw [(List.idxOf_inj hm).1 heq, Location.before_irrefl] at h
    cases h

theorem orderKey_lt_of_before (hl : d.HasNode l) (hm : d.HasNode m) (h : l.before m = true) :
    Prod.Lex (· < ·) (· < ·) (d.orderKey l) (d.orderKey m) := by
  have howner {k : Location} (hk : d.HasNode k) : k.owner ∈ d.nodes.filter fun m => !m.isAttribute :=
    List.mem_filter.2 ⟨mem_nodes_iff.2 hk.owner, rfl⟩
  rcases Location.before_iff.1 h with hpath | ⟨hpath, hslot⟩
  · refine .left _ _ (idxOf_lt_of_before (d.ordered_nodes.sublist List.filter_sublist) (howner hl)
      (howner hm) ?_)
    exact Location.before_iff.2 (.inl hpath)
  · have hsame : d.number l.owner = d.number m.owner := by rw [Location.owner, hpath]; rfl
    rw [orderKey, orderKey, hsame]
    exact .right _ hslot

/-- The one node is in front of the other in the document. -/
def Precedes (d : Document) (l m : Location) : Prop :=
  Prod.Lex (· < ·) (· < ·) (d.orderKey l) (d.orderKey m)

/-- Nodes of the document in the order of their locations are in the order of the document. -/
theorem pairwise_precedes {ls : List Location} (hnodes : ∀ l ∈ ls, d.HasNode l) (h : Ordered ls) :
    ls.Pairwise d.Precedes :=
  List.Pairwise.imp_of_mem
    (fun hl hm hlm => orderKey_lt_of_before (hnodes _ hl) (hnodes _ hm) hlm) h

end Document

end Crosswalk.Xml

namespace Crosswalk.XPath

open Crosswalk.Xml (Document Location)

/-- The nodes that an expression gives increase in document order: they are the listing of the document
with nodes left out, none of them twice. -/
theorem Expr.documentOrder_evaluate {d : Document} {ns : Namespaces} {node : Location} {e : Expr}
    {ls : List Location} (hnode : d.HasNode node) (h : e.evaluate d ns node = .ok (.nodes ls)) :
    ls.Pairwise (fun l m => Prod.Lex (· < ·) (· < ·) (d.orderKey l) (d.orderKey m)) ∧
      ls.Sublist d.nodes ∧ ls.Nodup := by
  have hordered := Expr.ordered_eval h
  have hnodes := Expr.hasNode_eval hnode h
  refine ⟨?_, ?_, hordered.nodup⟩
  · refine List.Pairwise.imp_of_mem ?_ hordered
    intro l m hl hm hbefore
    exact Document.orderKey_lt_of_before (hnodes l hl) (hnodes m hm) hbefore
  · have hsubset : ls ⊆ d.nodes := fun l hl => Document.mem_nodes_iff.2 (hnodes l hl)
    have : Std.Antisymm fun l m : Location => l.before m = true := ⟨fun l m hlm hml => by
      rw [Location.before_asymm hlm] at hml
      cases hml⟩
    exact List.sublist_of_subperm_of_pairwise (List.subperm_of_subset hordered.nodup hsubset) hordered
      d.ordered_nodes

/-- Below the second element: attributes and children of both ways through the tree, and the nodes
around them, asked for backwards. -/
theorem documentOrder_of_union :
    let d : Document := ⟨[.element ⟨none, "r"⟩ [] []
      [.element ⟨none, "a"⟩ [] [⟨⟨none, "k"⟩, "1"⟩] [.text "x"], .element ⟨none, "a"⟩ [] [] []]]⟩
    let e : Expr := .union (.path true [⟨.descendant, .any, []⟩, ⟨.attributes, .any, []⟩])
      (.path false [⟨.ancestorOrSelf, .node, []⟩, ⟨.child, .node, []⟩])
    ∃ ls, d.HasNode (.ofPath [0, 0, 0]) ∧
      e.evaluate d .builtin (.ofPath [0, 0, 0]) = .ok (.nodes ls) ∧
      ls.Pairwise (fun l m => Prod.Lex (· < ·) (· < ·) (d.orderKey l) (d.orderKey m)) ∧
      ls.Sublist d.nodes ∧ ls.Nodup := by
  intro d e
  have hnode : d.HasNode (.ofPath [0, 0, 0]) := by decide
  have hvalue : e.evaluate d .builtin (.ofPath [0, 0, 0]) = .ok (.nodes
      [.ofPath [0], .ofPath [0, 0], ⟨[0, 0], some 0⟩, .ofPath [0, 0, 0], .ofPath [0, 1]]) := by
    cbv
  exact ⟨_, hnode, hvalue, Expr.documentOrder_evaluate hnode hvalue⟩

end Crosswalk.XPath
