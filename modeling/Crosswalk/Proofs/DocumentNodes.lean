import Crosswalk.Xml.Location
import Mathlib.Data.List.Basic
import Mathlib.Data.List.Induction

/-!
# The nodes of a document

Not every location is one of a node: the child indexes have to lead somewhere. From a node of the document
no axis leads out of it.
-/

namespace Crosswalk.Xml.Document

/-- The nodes below the node that a path leads to. -/
def siblingsAt : List Content → List Nat → List Content
  | siblings, [] => siblings
  | siblings, i :: rest =>
    match siblings[i]? with
    | some c => siblingsAt c.children rest
    | none => []

theorem siblingsAt_append (siblings : List Content) (p q : List Nat) :
    siblingsAt siblings (p ++ q) = siblingsAt (siblingsAt siblings p) q := by
  induction p generalizing siblings with
  | nil => rfl
  | cons i rest ih =>
    rw [List.cons_append, siblingsAt, siblingsAt]
    cases siblings[i]? with
    | some c => exact ih c.children
    | none => cases q <;> simp [siblingsAt]

/-- Behind a path, the siblings to choose from are those that it leads to. -/
theorem follow?_append_cons (siblings : List Content) (p : List Nat) (i : Nat) (q : List Nat) :
    follow? siblings (p ++ i :: q) = follow? (siblingsAt siblings p) (i :: q) := by
  induction p generalizing siblings with
  | nil => rfl
  | cons k rest ih =>
    obtain ⟨m, more, hm⟩ : ∃ m more, rest ++ i :: q = m :: more := by
      cases rest with
      | nil => exact ⟨i, q, rfl⟩
      | cons m more => exact ⟨m, more ++ i :: q, rfl⟩
    rw [List.cons_append, hm, follow?, siblingsAt]
    cases siblings[k]? with
    | some c => simp only []; rw [← hm, ih]
    | none => cases q <;> simp [follow?]

theorem follow?_append_singleton (siblings : List Content) (p : List Nat) (i : Nat) :
    follow? siblings (p ++ [i]) = (siblingsAt siblings p)[i]? :=
  follow?_append_cons siblings p i []

variable {d : Document} {l m : Location} {p : List Nat} {i : Nat} {c : Content}

theorem childrenAt_ofPath (d : Document) (p : List Nat) :
    d.childrenAt (.ofPath p) = siblingsAt d.children p := by
  rcases List.eq_nil_or_concat p with rfl | ⟨q, i, rfl⟩
  · rfl
  · simp only [childrenAt, Location.ofPath, List.concat_eq_append, contentAt?]
    rw [follow?_append_singleton, siblingsAt_append]
    cases h : (siblingsAt d.children q)[i]? <;> simp [siblingsAt, h]

theorem contentAt?_child (h : (siblingsAt d.children p)[i]? = some c) (a? : Option Nat) :
    d.contentAt? ⟨p ++ [i], a?⟩ = some c := by
  rw [contentAt?, follow?_append_singleton, h]

theorem childrenAt_of_contentAt? (h : d.contentAt? l = some c) : d.childrenAt l = c.children := by
  have hpath : l.path.isEmpty = false := by
    rw [List.isEmpty_eq_false_iff]
    intro hnil
    simp [contentAt?, hnil, follow?] at h
  rw [childrenAt, hpath, h]
  rfl

/-- The names of the attributes of an element are those of its content. -/
theorem nameAt?_attribute_iff {n : ExpandedName} : d.nameAt? ⟨p, some i⟩ = some n ↔
    ∃ c, d.contentAt? (.ofPath p) = some c ∧ (c.attributes.map (·.name))[i]? = some n := by
  have hat : d.contentAt? ⟨p, some i⟩ = d.contentAt? (.ofPath p) := rfl
  simp only [nameAt?, attributeAt?, Option.bind_eq_bind, Option.bind_some, hat, List.getElem?_map]
  cases d.contentAt? (.ofPath p) <;> simp

/-- A node of the document: the document node, a node below it, or an attribute of one. -/
structure HasNode (d : Document) (l : Location) : Prop where
  isNode : l.path = [] ∨ (d.contentAt? l).isSome
  isOwned : l.isAttribute → (d.attributeAt? l).isSome

instance (d : Document) (l : Location) : Decidable (d.HasNode l) :=
  decidable_of_iff ((l.path = [] ∨ (d.contentAt? l).isSome) ∧
    (l.isAttribute → (d.attributeAt? l).isSome)) ⟨fun h => ⟨h.1, h.2⟩, fun h => ⟨h.1, h.2⟩⟩

theorem hasNode_child_iff :
    d.HasNode (.ofPath (p ++ [i])) ↔ ((siblingsAt d.children p)[i]?).isSome = true := by
  have hat : d.contentAt? (.ofPath (p ++ [i])) = (siblingsAt d.children p)[i]? :=
    follow?_append_singleton _ _ _
  constructor
  · intro h
    rw [← hat]
    exact h.isNode.resolve_left (by simp [Location.ofPath])
  · intro h
    exact ⟨.inr (hat ▸ h), by simp [Location.ofPath, Location.isAttribute]⟩

theorem HasNode.around (h : d.HasNode (.ofPath (p ++ [i]))) : d.HasNode (.ofPath p) := by
  rcases List.eq_nil_or_concat p with rfl | ⟨q, k, rfl⟩
  · exact ⟨.inl rfl, by simp [Location.ofPath, Location.isAttribute]⟩
  · rw [List.concat_eq_append] at h ⊢
    rw [hasNode_child_iff] at h ⊢
    cases hk : (siblingsAt d.children q)[k]? with
    | some => rfl
    | none =>
      rw [siblingsAt_append, siblingsAt, hk] at h
      simp at h

theorem HasNode.path_ne_nil {l : Location} (h : d.HasNode l) (ha : l.isAttribute = true) :
    l.path ≠ [] := by
  intro hnil
  have := h.isOwned ha
  simp [attributeAt?, contentAt?, hnil, follow?] at this

theorem HasNode.owner {l : Location} (h : d.HasNode l) : d.HasNode (.ofPath l.path) :=
  ⟨h.isNode, by simp [Location.ofPath, Location.isAttribute]⟩

theorem hasNode_ofPath_nil (d : Document) : d.HasNode (.ofPath []) :=
  ⟨.inl rfl, by simp [Location.ofPath, Location.isAttribute]⟩

/-- What is around a node of the document, however far, is one, too. -/
theorem HasNode.of_append {q : List Nat} (h : d.HasNode (.ofPath (p ++ q))) :
    d.HasNode (.ofPath p) := by
  induction q using List.reverseRecOn with
  | nil => rwa [List.append_nil] at h
  | append_singleton q i ih =>
    rw [← List.append_assoc] at h
    exact ih h.around

theorem hasNode_child_of_lt (h : i < (siblingsAt d.children p).length) :
    d.HasNode (.ofPath (p ++ [i])) :=
  hasNode_child_iff.2 (by simp [h])

theorem childrenAt_eq (d : Document) (l : Location) :
    d.childrenAt l = siblingsAt d.children l.path :=
  d.childrenAt_ofPath l.path

theorem childLocations_ofPath (d : Document) (p : List Nat) : d.childLocations (.ofPath p) =
    (List.range (siblingsAt d.children p).length).map fun i => .ofPath (p ++ [i]) := by
  rw [childLocations, childrenAt_ofPath]
  rfl

theorem mem_attributeLocations {n : ExpandedName} (hn : d.nameAt? ⟨p, some i⟩ = some n) :
    ⟨p, some i⟩ ∈ d.attributeLocations (.ofPath p) := by
  obtain ⟨c, hc, hat⟩ := nameAt?_attribute_iff.1 hn
  refine List.mem_map.2 ⟨i, List.mem_range.2 ?_, rfl⟩
  rw [hc, ← List.length_map (·.name)]
  exact (List.getElem?_eq_some_iff.1 hat).1

/-- A name is that of a node or of one of its attributes. -/
theorem exists_of_nameAt? {n : ExpandedName} (hn : d.nameAt? l = some n) :
    ∃ c, d.contentAt? l = some c ∧ n ∈ c.name?.toList ++ c.attributes.map (·.name) := by
  obtain ⟨p, a?⟩ := l
  cases a? with
  | some a =>
    obtain ⟨c, hc, hat⟩ := nameAt?_attribute_iff.1 hn
    exact ⟨c, hc, List.mem_append_right _ (List.mem_of_getElem? hat)⟩
  | none =>
    obtain ⟨c, hc, hname⟩ := Option.bind_eq_some_iff.1 hn
    exact ⟨c, hc, List.mem_append_left _ (Option.mem_toList.2 hname)⟩

/-! ## Around a node -/

theorem hasNode_of_mem_children (h : m ∈ d.childLocations l) : d.HasNode m := by
  simp only [childLocations, List.mem_map, List.mem_range, childrenAt_eq] at h
  obtain ⟨i, hi, rfl⟩ := h
  exact hasNode_child_of_lt hi

theorem hasNode_of_mem_attributes (h : m ∈ d.attributeLocations l) : d.HasNode m := by
  simp only [attributeLocations, List.mem_map, List.mem_range] at h
  obtain ⟨i, hi, rfl⟩ := h
  have hat : d.contentAt? ⟨l.path, some i⟩ = d.contentAt? l := rfl
  rcases hc : d.contentAt? l with _ | c
  · rw [hc] at hi
    simp at hi
  · rw [hc] at hi hat
    refine ⟨.inr (by rw [hat]; rfl), fun _ => ?_⟩
    simpa [attributeAt?, hat] using hi

theorem HasNode.parent (h : d.HasNode l) (hm : l.parent? = some m) : d.HasNode m := by
  obtain ⟨p, a?⟩ := l
  cases a? with
  | some a =>
    cases hm
    exact h.owner
  | none =>
    rcases List.eq_nil_or_concat p with rfl | ⟨q, i, rfl⟩
    · cases hm
    · rw [List.concat_eq_append] at h hm
      simp [Location.parent?] at hm
      subst hm
      exact h.around

theorem HasNode.ancestor (h : d.HasNode l) (hm : m ∈ l.ancestors) : d.HasNode m := by
  have hpath (k : Nat) : d.HasNode (.ofPath (l.path.take k)) :=
    HasNode.of_append (q := l.path.drop k) (by rw [List.take_append_drop]; exact h.owner)
  have hpaths : ∀ m ∈ (List.range l.path.length).reverse.map fun k =>
      Location.ofPath (l.path.take k), d.HasNode m := by
    intro m hm
    obtain ⟨k, -, rfl⟩ := List.mem_map.1 hm
    exact hpath k
  rw [Location.ancestors] at hm
  split at hm
  · rcases List.mem_cons.1 hm with rfl | hm
    · exact h.owner
    · exact hpaths m hm
  · exact hpaths m hm

theorem hasNode_of_mem_followingSiblings (h : m ∈ d.followingSiblings l) : d.HasNode m := by
  rw [followingSiblings] at h
  split at h
  · cases h
  · obtain ⟨j, hj, rfl⟩ := List.mem_map.1 h
    have hlt := List.mem_range.1 (List.mem_of_mem_drop hj)
    rw [childrenAt_ofPath] at hlt
    exact hasNode_child_of_lt hlt

theorem HasNode.precedingSibling (h : d.HasNode l) (hm : m ∈ l.precedingSiblings) :
    d.HasNode m := by
  rw [Location.precedingSiblings] at hm
  split at hm
  · cases hm
  next i hi =>
    obtain ⟨j, hj, rfl⟩ := List.mem_map.1 hm
    rw [List.mem_reverse, List.mem_range] at hj
    have hpath : l.path = l.path.dropLast ++ [i] := (List.dropLast_append_getLast? i hi).symm
    have howner := h.owner
    rw [hpath, hasNode_child_iff, Option.isSome_iff_exists] at howner
    obtain ⟨c, hc⟩ := howner
    exact hasNode_child_of_lt (Nat.lt_trans hj (List.getElem?_eq_some_iff.1 hc).1)

/-! ## Below a node -/

mutual

theorem hasNode_of_mem_pathsBelow {q : List Nat} (c : Content) {p : List Nat}
    (hp : siblingsAt d.children p = c.children) (hq : q ∈ pathsBelow p c) :
    d.HasNode (.ofPath q) := by
  cases c with
  | element n bs as cs =>
    rw [pathsBelow] at hq
    exact hasNode_of_mem_pathsAmong cs (by rw [List.drop_zero]; exact hp) hq
  | text | comment | instruction => cases hq

theorem hasNode_of_mem_pathsAmong {q : List Nat} (cs : List Content) {p : List Nat} {i : Nat}
    (hp : (siblingsAt d.children p).drop i = cs) (hq : q ∈ pathsAmong p i cs) :
    d.HasNode (.ofPath q) := by
  cases cs with
  | nil => cases hq
  | cons c rest =>
    have hc : (siblingsAt d.children p)[i]? = some c := by
      rw [← List.head?_drop, hp, List.head?_cons]
    have hbelow : siblingsAt d.children (p ++ [i]) = c.children := by
      simp only [siblingsAt_append, siblingsAt, hc]
    have hrest : (siblingsAt d.children p).drop (i + 1) = rest := by
      rw [← List.tail_drop, hp, List.tail_cons]
    rw [pathsAmong, List.mem_cons, List.mem_append] at hq
    rcases hq with rfl | hq | hq
    · exact hasNode_child_iff.2 (by simp [hc])
    · exact hasNode_of_mem_pathsBelow c hbelow hq
    · exact hasNode_of_mem_pathsAmong rest hrest hq

end

theorem hasNode_of_mem_descendants (h : m ∈ d.descendantLocations l) : d.HasNode m := by
  obtain ⟨q, hq, rfl⟩ := List.mem_map.1 h
  exact hasNode_of_mem_pathsAmong _ (by rw [List.drop_zero, childrenAt_eq]) hq

end Crosswalk.Xml.Document
