import Crosswalk.Proofs.DocumentOrder

/-!
# Axes

Where the nodes along an axis stand is a matter of paths. The path of a child is that of the node with one
index more, the path of a descendant is it with at least one, and siblings differ in the last index alone.
Read from the other end, the same relation gives the parent, the ancestors and the siblings on the other
side, so these axes come in pairs of which each is the other one backwards. An attribute stands apart: it
has an owner, which is its parent, but it is no child of it.

The order along an axis comes from the same paths. Four axes lead away from the end of the document and list
the nearest node first; all others list their nodes as the document has them.
-/

namespace Crosswalk.Xml

open Location (ofPath Ordered)

variable {d : Document} {l m : Location} {p q : List Nat} {i j : Nat}

theorem Location.ofPath_inj : ofPath p = ofPath q ↔ p = q :=
  ⟨congrArg Location.path, congrArg ofPath⟩

/-! ## Below a node -/

namespace Content

mutual

/-- The nodes below a node are all that belongs to it, without attributes. -/
theorem filter_nodes (path : List Nat) (c : Content) :
    ((c.nodes path).filter fun m => !m.isAttribute) =
      ofPath path :: (Document.pathsBelow path c).map ofPath := by
  cases c with
  | element n bs as cs =>
    have hattributes : ((List.range as.length).map fun a => (⟨path, some a⟩ : Location)).filter
        (fun m => !m.isAttribute) = [] := by
      rw [List.filter_map]
      exact List.map_eq_nil_iff.2 (List.filter_eq_nil_iff.2 fun a _ => by simp [Location.isAttribute])
    rw [nodes, List.filter_cons_of_pos (by rfl), List.filter_append, hattributes, List.nil_append,
      filter_nodesAmong path 0 cs, Document.pathsBelow]
  | text | comment | instruction => rfl

theorem filter_nodesAmong (path : List Nat) (i : Nat) (cs : List Content) :
    ((nodesAmong path i cs).filter fun m => !m.isAttribute) =
      (Document.pathsAmong path i cs).map ofPath := by
  cases cs with
  | nil => rfl
  | cons c rest =>
    rw [nodesAmong, List.filter_append, filter_nodes (path ++ [i]) c, filter_nodesAmong path (i + 1) rest,
      Document.pathsAmong, List.map_cons, List.map_append, List.cons_append]

end

end Content

namespace Document

theorem descendantLocations_eq (d : Document) (l : Location) : d.descendantLocations l =
    (Content.nodesAmong l.path 0 (d.childrenAt l)).filter fun m => !m.isAttribute :=
  (Content.filter_nodesAmong ..).symm

theorem hasNode_child_iff_lt :
    d.HasNode (ofPath (p ++ [i])) ↔ i < (siblingsAt d.children p).length := by
  rw [hasNode_child_iff]
  simp

theorem mem_childLocations_iff :
    m ∈ d.childLocations l ↔ ∃ i, m = ofPath (l.path ++ [i]) ∧ d.HasNode m := by
  constructor
  · intro h
    obtain ⟨i, -, rfl⟩ := List.mem_map.1 h
    exact ⟨i, rfl, hasNode_of_mem_children h⟩
  · rintro ⟨i, rfl, hm⟩
    rw [hasNode_child_iff_lt, ← childrenAt_eq] at hm
    exact List.mem_map.2 ⟨i, List.mem_range.2 hm, rfl⟩

theorem mem_attributeLocations_owner (hm : d.HasNode m) (ha : m.isAttribute = true) :
    m ∈ d.attributeLocations m.owner := by
  obtain ⟨p, _ | a⟩ := m
  · cases ha
  · obtain ⟨c, hc⟩ := Option.isSome_iff_exists.1 (hm.isNode.resolve_left (hm.path_ne_nil ha))
    have hat : d.contentAt? (ofPath p) = some c := hc
    have hlt : a < c.attributes.length := by
      simpa [attributeAt?, hc] using hm.isOwned ha
    refine List.mem_map.2 ⟨a, List.mem_range.2 ?_, rfl⟩
    show a < (((d.contentAt? (ofPath p)).map Content.attributes).getD []).length
    rw [hat]
    exact hlt

theorem mem_descendantLocations_iff :
    m ∈ d.descendantLocations l ↔ ∃ i q, m = ofPath (l.path ++ i :: q) ∧ d.HasNode m := by
  constructor
  · intro h
    have hm := hasNode_of_mem_descendants h
    rw [descendantLocations_eq, List.mem_filter] at h
    obtain ⟨i, q, -, hpath⟩ := Content.exists_of_mem_nodesAmong _ h.1
    have hattribute : m.attribute? = none := by simpa [Location.isAttribute] using h.2
    exact ⟨i, q, Location.slot_injective hpath (by rw [Location.slot, hattribute]; rfl), hm⟩
  · rintro ⟨i, q, rfl, hm⟩
    have hne : l.path ++ i :: q ≠ [] := by simp
    obtain ⟨c, hc⟩ := Option.isSome_iff_exists.1 (hm.isNode.resolve_left hne)
    have hbelow : follow? (d.childrenAt l) (i :: q) = some c := by
      rw [childrenAt_eq, ← follow?_append_cons]
      exact hc
    rw [descendantLocations_eq, List.mem_filter]
    refine ⟨Content.nodes_subset_of_follow? hbelow ?_, rfl⟩
    rw [Content.nodes_eq]
    exact List.mem_cons_self

/-! ## Beside a node -/

theorem mem_followingSiblings_iff : m ∈ d.followingSiblings l ↔
    ∃ p i j, l.path = p ++ [i] ∧ m = ofPath (p ++ [j]) ∧ i < j ∧ d.HasNode m := by
  constructor
  · intro h
    have hm := hasNode_of_mem_followingSiblings h
    rw [followingSiblings] at h
    split at h
    · cases h
    next i hi =>
      obtain ⟨j, hj, rfl⟩ := List.mem_map.1 h
      obtain ⟨k, hk, hkj⟩ := List.mem_iff_getElem.1 hj
      rw [List.getElem_drop, List.getElem_range] at hkj
      exact ⟨_, i, j, (List.dropLast_append_getLast? i hi).symm, rfl, by omega, hm⟩
  · rintro ⟨p, i, j, hl, rfl, hij, hm⟩
    rw [hasNode_child_iff_lt, ← childrenAt_ofPath] at hm
    rw [followingSiblings, hl, List.getLast?_concat, List.dropLast_concat]
    refine List.mem_map.2 ⟨j, List.mem_iff_getElem.2 ⟨j - (i + 1), ?_, ?_⟩, rfl⟩
    · rw [List.length_drop, List.length_range]
      omega
    · rw [List.getElem_drop, List.getElem_range]
      omega

end Document

namespace Location

theorem mem_precedingSiblings_iff : l ∈ m.precedingSiblings ↔
    ∃ p i j, l = ofPath (p ++ [i]) ∧ m.path = p ++ [j] ∧ i < j := by
  constructor
  · intro h
    rw [precedingSiblings] at h
    split at h
    · cases h
    next j hj =>
      obtain ⟨i, hi, rfl⟩ := List.mem_map.1 h
      rw [List.mem_reverse, List.mem_range] at hi
      exact ⟨_, i, j, rfl, (List.dropLast_append_getLast? j hj).symm, hi⟩
  · rintro ⟨p, i, j, rfl, hm, hij⟩
    rw [precedingSiblings, hm, List.getLast?_concat, List.dropLast_concat]
    exact List.mem_map.2 ⟨i, List.mem_reverse.2 (List.mem_range.2 hij), rfl⟩

/-! ## Around a node -/

theorem parent?_ofPath_iff : (ofPath p).parent? = some l ↔ ∃ q i, l = ofPath q ∧ p = q ++ [i] := by
  rcases List.eq_nil_or_concat p with rfl | ⟨q, i, rfl⟩
  · simp [parent?, ofPath]
  · rw [List.concat_eq_append]
    have hparent : (ofPath (q ++ [i])).parent? = some (ofPath q) := by simp [parent?, ofPath]
    rw [hparent, Option.some_inj]
    constructor
    · rintro rfl
      exact ⟨q, i, rfl, rfl⟩
    · rintro ⟨q', i', rfl, heq⟩
      rw [(List.append_inj' heq rfl).1]

theorem mem_ancestors_ofPath_iff :
    l ∈ (ofPath p).ancestors ↔ ∃ q i r, l = ofPath q ∧ p = q ++ i :: r := by
  show l ∈ ((List.range p.length).reverse.map fun k => ofPath (p.take k)) ↔ _
  simp only [List.mem_map, List.mem_reverse, List.mem_range]
  constructor
  · rintro ⟨k, hk, rfl⟩
    refine ⟨p.take k, p[k], p.drop (k + 1), rfl, ?_⟩
    rw [← List.drop_eq_getElem_cons hk, List.take_append_drop]
  · rintro ⟨q, i, r, rfl, rfl⟩
    exact ⟨q.length, by simp, by rw [List.take_left]⟩

/-- Going outwards, what is around the parent comes after the parent. -/
theorem ancestors_child (p : List Nat) (i : Nat) :
    (ofPath (p ++ [i])).ancestors = ofPath p :: (ofPath p).ancestors := by
  show ((List.range (p ++ [i]).length).reverse.map fun k => ofPath ((p ++ [i]).take k)) =
    ofPath p :: (List.range p.length).reverse.map fun k => ofPath (p.take k)
  rw [List.length_append, List.length_singleton, List.range_succ, List.reverse_append,
    List.reverse_singleton, List.singleton_append, List.map_cons, List.take_left]
  refine congrArg (ofPath p :: ·) (List.map_congr_left fun k hk => ?_)
  have hlt : k < p.length := List.mem_range.1 (List.mem_reverse.1 hk)
  rw [List.take_append_of_le_length (Nat.le_of_lt hlt)]

end Location

/-! ## The order along an axis -/

namespace Location

theorem before_attributes (h : i < j) : before ⟨p, some i⟩ ⟨p, some j⟩ = true :=
  before_iff.2 (.inr ⟨rfl, Nat.succ_lt_succ h⟩)

theorem before_attribute (p : List Nat) (i : Nat) : (ofPath p).before ⟨p, some i⟩ = true :=
  before_iff.2 (.inr ⟨rfl, Nat.succ_pos i⟩)

theorem before_siblings (h : i < j) : (ofPath (p ++ [i])).before (ofPath (p ++ [j])) = true := by
  refine before_iff.2 (.inl ?_)
  show pathBefore (p ++ [i]) (p ++ [j]) = true
  rw [Content.pathBefore_append, pathBefore, decide_eq_true h, Bool.true_or]

theorem before_below (p : List Nat) (i : Nat) (q : List Nat) :
    (ofPath p).before (ofPath (p ++ i :: q)) = true :=
  Content.before_of_below rfl rfl

/-- Among the nodes around a node, and the node itself, the inner one comes first. -/
theorem pairwise_ancestors (p : List Nat) :
    (ofPath p :: (ofPath p).ancestors).Pairwise fun l m => m.before l = true := by
  induction p using List.reverseRecOn with
  | nil => exact List.pairwise_singleton ..
  | append_singleton p i ih =>
    rw [ancestors_child]
    refine List.pairwise_cons.2 ⟨fun m hm => ?_, ih⟩
    have hparent : (ofPath p).before (ofPath (p ++ [i])) = true := before_below p i []
    rcases List.mem_cons.1 hm with rfl | hm
    · exact hparent
    · exact before_trans ((List.pairwise_cons.1 ih).1 m hm) hparent

theorem pairwise_precedingSiblings (l : Location) :
    l.precedingSiblings.Pairwise fun l m => m.before l = true := by
  rw [precedingSiblings]
  split
  · exact .nil
  · rw [List.pairwise_map, List.pairwise_reverse]
    exact List.Pairwise.imp (fun hij => before_siblings hij) List.pairwise_lt_range

end Location

namespace Document

theorem ordered_childLocations (d : Document) (l : Location) : Ordered (d.childLocations l) := by
  rw [childLocations, Ordered, List.pairwise_map]
  exact List.Pairwise.imp (fun hij => Location.before_siblings hij) List.pairwise_lt_range

theorem ordered_attributeLocations (d : Document) (l : Location) :
    Ordered (d.attributeLocations l) := by
  rw [attributeLocations, Ordered, List.pairwise_map]
  exact List.Pairwise.imp (fun hij => Location.before_attributes hij) List.pairwise_lt_range

theorem ordered_descendantLocations (d : Document) (l : Location) :
    Ordered (d.descendantLocations l) := by
  rw [descendantLocations_eq]
  exact Ordered.sublist (Content.ordered_nodesAmong ..) List.filter_sublist

theorem ordered_followingSiblings (d : Document) (l : Location) :
    Ordered (d.followingSiblings l) := by
  rw [followingSiblings]
  split
  · exact .nil
  · rw [Ordered, List.pairwise_map]
    refine List.Pairwise.imp (fun hij => Location.before_siblings hij) ?_
    exact List.Pairwise.sublist (List.drop_sublist ..) List.pairwise_lt_range

end Document

end Crosswalk.Xml

namespace Crosswalk.XPath

open Crosswalk.Xml (Document Location)
open Crosswalk.Xml.Location (ofPath Ordered)

variable {d : Document} {l m x y : Location} {p : List Nat} {a : Nat} {axis : Axis}

/-- Whether an axis leads away from the end of the document, the nearest node first. -/
def Axis.runsBackwards : Axis → Bool
  | parent | ancestor | ancestorOrSelf | precedingSibling => true
  | _ => false

theorem ordered_locations (d : Document) (l : Location) (h : axis.runsBackwards = false) :
    Ordered (axis.locations d l) := by
  obtain ⟨p, _ | a⟩ := l
  -- nodes other than attributes
  · cases axis with
    | self => exact Location.ordered_singleton _
    | child => exact Document.ordered_childLocations ..
    | descendant => exact Document.ordered_descendantLocations ..
    | descendantOrSelf =>
      refine List.pairwise_cons.2 ⟨fun m hm => ?_, Document.ordered_descendantLocations ..⟩
      obtain ⟨i, q, rfl, -⟩ := Document.mem_descendantLocations_iff.1 hm
      exact Location.before_below p i q
    | attributes => exact Document.ordered_attributeLocations ..
    | followingSibling => exact Document.ordered_followingSiblings ..
    | parent | ancestor | ancestorOrSelf | precedingSibling => cases h
  · cases axis with
    | self | descendantOrSelf => exact Location.ordered_singleton _
    | child | descendant | attributes | followingSibling => exact .nil
    | parent | ancestor | ancestorOrSelf | precedingSibling => cases h

theorem pairwise_locations_of_runsBackwards (d : Document) (l : Location)
    (h : axis.runsBackwards = true) :
    (axis.locations d l).Pairwise fun l m => m.before l = true := by
  obtain ⟨p, _ | a⟩ := l
  · cases axis with
    | parent =>
      rw [Axis.locations]
      cases (Location.mk p none).parent? with
      | none => exact .nil
      | some m => exact List.pairwise_singleton ..
    | ancestor => exact (Location.pairwise_ancestors p).of_cons
    | ancestorOrSelf => exact Location.pairwise_ancestors p
    | precedingSibling => exact Location.pairwise_precedingSiblings _
    | self | child | descendant | descendantOrSelf | attributes | followingSibling => cases h
  · have howner : (ofPath p).before ⟨p, some a⟩ = true := Location.before_attribute p a
    cases axis with
    | parent => exact List.pairwise_singleton ..
    | ancestor => exact Location.pairwise_ancestors p
    | ancestorOrSelf =>
      refine List.pairwise_cons.2 ⟨fun m hm => ?_, Location.pairwise_ancestors p⟩
      rcases List.mem_cons.1 hm with rfl | hm
      · exact howner
      · exact Location.before_trans ((List.pairwise_cons.1 (Location.pairwise_ancestors p)).1 m hm) howner
    | precedingSibling => exact .nil
    | self | child | descendant | descendantOrSelf | attributes | followingSibling => cases h

/-! ## Axes that are inverse to each other -/

/-- Two axes are inverse to each other if the one leads from a path to the paths to which the other leads
back, and attributes have nothing along the first one. -/
theorem mem_iff_mem_of_paths {along back : Axis} {R : List Nat → List Nat → Prop}
    (halong : ∀ q p, ofPath p ∈ along.locations d (ofPath q) ↔ R q p ∧ d.HasNode (ofPath p))
    (hattribute : ∀ q a, along.locations d ⟨q, some a⟩ = [])
    (hback : ∀ p l, l ∈ back.locations d (ofPath p) ↔ ∃ q, l = ofPath q ∧ R q p)
    (hm : d.HasNode m) (ha : m.isAttribute = false) :
    m ∈ along.locations d l ↔ l ∈ back.locations d m := by
  obtain ⟨p, _ | a⟩ := m
  · show ofPath p ∈ along.locations d l ↔ l ∈ back.locations d (ofPath p)
    rw [hback]
    obtain ⟨q, _ | a⟩ := l
    · show ofPath p ∈ along.locations d (ofPath q) ↔ _
      rw [halong]
      constructor
      · intro h
        exact ⟨q, rfl, h.1⟩
      · rintro ⟨_, ⟨⟩, h⟩
        exact ⟨h, hm⟩
    · rw [hattribute]
      exact iff_of_false List.not_mem_nil (by rintro ⟨_, ⟨⟩, -⟩)
  · cases ha

theorem mem_child_iff_mem_parent (hm : d.HasNode m) (ha : m.isAttribute = false) :
    m ∈ Axis.child.locations d l ↔ l ∈ Axis.parent.locations d m := by
  refine mem_iff_mem_of_paths (R := fun q p => ∃ i, p = q ++ [i]) ?_ (fun _ _ => rfl) ?_ hm ha
  · intro q p
    show ofPath p ∈ d.childLocations (ofPath q) ↔ _
    simp only [Document.mem_childLocations_iff, Location.ofPath_inj, exists_and_right]
    rfl
  · intro p l
    show l ∈ (ofPath p).parent?.toList ↔ _
    simp [Location.parent?_ofPath_iff]

theorem mem_descendant_iff_mem_ancestor (hm : d.HasNode m) (ha : m.isAttribute = false) :
    m ∈ Axis.descendant.locations d l ↔ l ∈ Axis.ancestor.locations d m := by
  refine mem_iff_mem_of_paths (R := fun q p => ∃ i r, p = q ++ i :: r) ?_ (fun _ _ => rfl) ?_ hm ha
  · intro q p
    show ofPath p ∈ d.descendantLocations (ofPath q) ↔ _
    simp only [Document.mem_descendantLocations_iff, Location.ofPath_inj, exists_and_right]
    rfl
  · intro p l
    show l ∈ (ofPath p).ancestors ↔ _
    simp [Location.mem_ancestors_ofPath_iff]

theorem mem_followingSibling_iff_mem_precedingSibling (hm : d.HasNode m)
    (ha : m.isAttribute = false) :
    m ∈ Axis.followingSibling.locations d l ↔ l ∈ Axis.precedingSibling.locations d m := by
  refine mem_iff_mem_of_paths (R := fun q p => ∃ r i j, q = r ++ [i] ∧ p = r ++ [j] ∧ i < j) ?_
    (fun _ _ => rfl) ?_ hm ha
  · intro q p
    show ofPath p ∈ d.followingSiblings (ofPath q) ↔ _
    rw [Document.mem_followingSiblings_iff]
    constructor
    · rintro ⟨r, i, j, hq, hp, hij, hnode⟩
      exact ⟨⟨r, i, j, hq, Location.ofPath_inj.1 hp, hij⟩, hnode⟩
    · rintro ⟨⟨r, i, j, hq, hp, hij⟩, hnode⟩
      exact ⟨r, i, j, hq, congrArg ofPath hp, hij, hnode⟩
  · intro p l
    show l ∈ (ofPath p).precedingSiblings ↔ _
    rw [Location.mem_precedingSiblings_iff]
    constructor
    · rintro ⟨r, i, j, hl, hp, hij⟩
      exact ⟨r ++ [i], hl, r, i, j, rfl, hp, hij⟩
    · rintro ⟨_, hl, r, i, j, rfl, hp, hij⟩
      exact ⟨r, i, j, hl, hp, hij⟩

theorem parent_of_attribute (ha : m.isAttribute = true) :
    Axis.parent.locations d m = [m.owner] := by
  obtain ⟨p, _ | a⟩ := m
  · cases ha
  · rfl

/-- From every node of a document the axes list their nodes in document order, the four that run backwards
in the opposite one. What is a child, a descendant or a following sibling of a node has that node for its
parent, among its ancestors or its preceding siblings. An attribute is one of those of its parent. -/
theorem axes_ordered_and_inverse (hx : d.HasNode x) :
    (∀ axis : Axis, axis.runsBackwards = false → (axis.locations d x).Pairwise d.Precedes) ∧
    (∀ axis : Axis, axis.runsBackwards = true →
      (axis.locations d x).Pairwise fun l m => d.Precedes m l) ∧
    (∀ y, d.HasNode y → y.isAttribute = false →
      (y ∈ Axis.child.locations d x ↔ x ∈ Axis.parent.locations d y) ∧
      (y ∈ Axis.descendant.locations d x ↔ x ∈ Axis.ancestor.locations d y) ∧
      (y ∈ Axis.followingSibling.locations d x ↔ x ∈ Axis.precedingSibling.locations d y)) ∧
    ∀ y, d.HasNode y → y.isAttribute = true →
      Axis.parent.locations d y = [y.owner] ∧ y ∈ Axis.attributes.locations d y.owner := by
  have hnodes (axis : Axis) : ∀ l ∈ axis.locations d x, d.HasNode l :=
    fun l hl => hasNode_of_mem_locations axis hx hl
  refine ⟨fun axis haxis => ?_, fun axis haxis => ?_, fun y hy ha => ?_, fun y hy ha => ?_⟩
  · exact Document.pairwise_precedes (hnodes axis) (ordered_locations d x haxis)
  · refine List.Pairwise.imp_of_mem (fun hl hm hlm => ?_)
      (pairwise_locations_of_runsBackwards d x haxis)
    exact Document.orderKey_lt_of_before (hnodes axis _ hm) (hnodes axis _ hl) hlm
  · exact ⟨mem_child_iff_mem_parent hy ha, mem_descendant_iff_mem_ancestor hy ha,
      mem_followingSibling_iff_mem_precedingSibling hy ha⟩
  · exact ⟨parent_of_attribute ha, Document.mem_attributeLocations_owner hy ha⟩

/-- An entry between a comment and another entry, with an attribute, a text and an instruction. -/
theorem axes_ordered_and_inverse_entry :
    let d : Document := ⟨[.element ⟨none, "list"⟩ [] [] [.comment "first",
      .element ⟨none, "entry"⟩ [] [⟨⟨none, "key"⟩, "1"⟩] [.text "x", .instruction "break" none],
      .element ⟨none, "entry"⟩ [] [] []]]⟩
    let entry : Location := ofPath [0, 1]
    let key : Location := ⟨[0, 1], some 0⟩
    (d.HasNode entry ∧ d.HasNode (ofPath [0, 1, 1]) ∧ d.HasNode (ofPath [0, 2]) ∧ d.HasNode key) ∧
    [entry, ofPath [0, 1, 0], ofPath [0, 1, 1]].Pairwise d.Precedes ∧
    [entry, ofPath [0], ofPath []].Pairwise (fun l m => d.Precedes m l) ∧
    entry ∈ Axis.parent.locations d (ofPath [0, 1, 1]) ∧
    entry ∈ Axis.ancestor.locations d (ofPath [0, 1, 1]) ∧
    entry ∈ Axis.precedingSibling.locations d (ofPath [0, 2]) ∧
    Axis.parent.locations d key = [entry] ∧ key ∈ Axis.attributes.locations d entry := by
  intro d entry key
  have hentry : d.HasNode entry := by decide
  have hbelow : d.HasNode (ofPath [0, 1, 1]) := by decide
  have hnext : d.HasNode (ofPath [0, 2]) := by decide
  have hkey : d.HasNode key := by decide
  obtain ⟨hforwards, hbackwards, hinverse, howned⟩ := axes_ordered_and_inverse hentry
  have hdown := hinverse _ hbelow rfl
  have hbeside := hinverse _ hnext rfl
  refine ⟨⟨hentry, hbelow, hnext, hkey⟩, hforwards .descendantOrSelf rfl,
    hbackwards .ancestorOrSelf rfl, hdown.1.1 (by decide), hdown.2.1.1 (by decide),
    hbeside.2.2.1 (by decide), howned key hkey rfl⟩

end Crosswalk.XPath
