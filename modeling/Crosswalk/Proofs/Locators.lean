import Crosswalk.Proofs.SpelledSteps

/-!
# The path of a node selects it

A path shows every node on the way to its own by its name and its place among the siblings of its kind,
and an expression is read as steps that test for a name and then for a place. That both count alike is
what makes a path an expression that leads back to the node: where no name is in a namespace, the
siblings that a label counts are those that its test passes.

The proof goes down from the document node. The labels so far lead to one node alone, and the next step
keeps one of its children, or one of its attributes.
-/

namespace Crosswalk.XPath

open Crosswalk.Xml (Content Document Location ExpandedName)
open Crosswalk.Xml.Document (siblingsAt placeAmong kindText)
open Crosswalk.Xml.Location (ofPath inOrder mem_inOrder ordered_inOrder ordered_singleton)

variable {d : Document} {ns : Namespaces} {p : List Nat} {i j : Nat} {c e : Content}
  {test : NodeTest} {ls ms : List Location} {l m : Location}

/-! ## A number in brackets -/

/-- A number keeps the node at its place, counting from the position of the first. -/
theorem keepWhere_number {k size position : Nat} (hk : k ≠ 0) (hk' : k < 2 ^ 53)
    (hposition : position ≠ 0) (hsize : position + ls.length ≤ 2 ^ 53) :
    keepWhere (fun _ => .ok (.number (.ofNat k))) size position ls =
      .ok (if position ≤ k then ls[k - position]?.toList else []) := by
  induction ls generalizing position with
  | nil => simp [keepWhere]
  | cons l rest ih =>
    rw [List.length_cons] at hsize
    have hkeeps : (Value.number (.ofNat k)).keeps position = decide (k = position) := by
      have := Number.ofNat_equal_iff hk hk' hposition (k := position) (by omega)
      rw [Value.keeps, Bool.eq_iff_iff, this, decide_eq_true_iff]
    rw [keepWhere, ih (Nat.succ_ne_zero position) (by omega)]
    simp only [bind, Except.bind, hkeeps]
    rcases Nat.lt_trichotomy position k with hlt | rfl | hlt
    · have hnext : k - position = k - (position + 1) + 1 := by omega
      simp [hlt.ne', hlt.le, Nat.succ_le_of_lt hlt, hnext]
    · simp [Nat.not_succ_le_self position]
    · simp [hlt.ne, Nat.not_le.2 hlt, Nat.not_le.2 (Nat.lt_succ_of_lt hlt)]

theorem keepAll_number {k : Nat} (hk : k ≠ 0) (hk' : k < 2 ^ 53) (hsize : ls.length < 2 ^ 53) :
    keepAll d ns [.number (.ofNat k)] ls = .ok ls[k - 1]?.toList := by
  have hkept : keepWhere (fun _ => .ok (.number (.ofNat k))) ls.length 1 ls =
      .ok (if 1 ≤ k then ls[k - 1]?.toList else []) :=
    keepWhere_number hk hk' Nat.one_ne_zero (by omega)
  rw [if_pos (Nat.one_le_iff_ne_zero.2 hk)] at hkept
  simp only [keepAll, Expr.eval, hkept]
  rfl

/-! ## The step to a child -/

/-- What a step asks for to find a node of this kind. No test asks for instructions alone. -/
def testOf? : Content → Option NodeTest
  | .element n _ _ _ => some (.name none n.localName)
  | .text _ => some .text
  | .comment _ => some .comment
  | .instruction _ _ => none

/-- Where no name is in a namespace, a test for a node passes its siblings of the same kind. -/
theorem holds_child (plain : ∀ l n, d.nameAt? l = some n → n.space = none)
    (hc : (siblingsAt d.children p)[i]? = some c) (htest : testOf? c = some test)
    (he : (siblingsAt d.children p)[j]? = some e) :
    test.holds d ns false (ofPath (p ++ [j])) = c.sameKind e := by
  have hat : d.contentAt? (ofPath (p ++ [j])) = some e := Document.contentAt?_child he none
  have hname := Document.nameAt?_child he
  have hattribute : (ofPath (p ++ [j])).isAttribute = false := rfl
  cases c with
  | element n bs as cs =>
    cases htest
    have hn : n.space = none := plain _ n (Document.nameAt?_child hc)
    cases e with
    | element m bs' as' cs' =>
      have hm : m.space = none := plain _ m hname
      have hsame : n = m ↔ m.localName = n.localName :=
        ⟨fun h => h ▸ rfl, fun h => ExpandedName.eq_of_plain hn hm h.symm⟩
      simp [NodeTest.holds, hattribute, hname, Content.name?, Content.sameKind, hsame]
    | _ => simp [NodeTest.holds, hname, Content.name?, Content.sameKind]
  | text t =>
    cases htest
    cases e <;> simp [NodeTest.holds, hattribute, hat, Content.isText, Content.sameKind]
  | comment t =>
    cases htest
    cases e <;> simp [NodeTest.holds, hattribute, hat, Content.isComment, Content.sameKind]
  | instruction => cases htest

/-- Among the kept ones, a member stands behind those that are kept in front of it. -/
theorem getElem?_filter_of_kept {α : Type} {f : α → Bool} {as : List α} {a : α}
    (ha : as[i]? = some a) (hf : f a = true) :
    (as.filter f)[((as.take i).filter f).length]? = some a := by
  obtain ⟨hlt, rfl⟩ := List.getElem?_eq_some_iff.1 ha
  have hsplit : as.filter f = (as.take i).filter f ++ as[i] :: (as.drop (i + 1)).filter f := by
    rw [← List.filter_cons_of_pos hf, ← List.drop_eq_getElem_cons hlt, ← List.filter_append,
      List.take_append_drop]
  rw [hsplit, List.getElem?_append_right (Nat.le_refl _), Nat.sub_self, List.getElem?_cons_zero]

/-- Members that pass the one test are counted like indexes that pass the other. -/
theorem length_filter_take_range {α : Type} {f : α → Bool} {g : Nat → Bool} {as : List α}
    (h : ∀ j a, as[j]? = some a → g j = f a) (i : Nat) :
    (((List.range as.length).take i).filter g).length = ((as.take i).filter f).length := by
  induction i with
  | zero => rfl
  | succ i ih =>
    rw [List.take_add_one, List.take_add_one, List.filter_append, List.filter_append,
      List.length_append, List.length_append, ih]
    cases ha : as[i]? with
    | none => simp [List.getElem?_eq_none_iff.1 ha]
    | some a =>
      have hlt := (List.getElem?_eq_some_iff.1 ha).1
      simp only [List.getElem?_range hlt, Option.toList_some, List.filter_cons, h i a ha]
      split <;> rfl

/-- Among the children that pass its test, a child stands at its place. -/
theorem getElem?_children (plain : ∀ l n, d.nameAt? l = some n → n.space = none)
    (hc : (siblingsAt d.children p)[i]? = some c) (htest : testOf? c = some test) :
    ((d.childLocations (ofPath p)).filter fun m => test.holds d ns false m)[
      placeAmong (siblingsAt d.children p) i c - 1]? = some (ofPath (p ++ [i])) := by
  have hself : c.sameKind c = true := by cases c <;> simp [Content.sameKind]
  have hat : (d.childLocations (ofPath p))[i]? = some (ofPath (p ++ [i])) := by
    have hlt := (List.getElem?_eq_some_iff.1 hc).1
    rw [Document.childLocations_ofPath, List.getElem?_map, List.getElem?_range hlt, Option.map_some]
  have hbefore : (((d.childLocations (ofPath p)).take i).filter fun m =>
      test.holds d ns false m).length =
        (((siblingsAt d.children p).take i).filter c.sameKind).length := by
    rw [Document.childLocations_ofPath, ← List.map_take, List.filter_map, List.length_map]
    exact length_filter_take_range (fun j e he => holds_child plain hc htest he) i
  rw [placeAmong, Nat.add_sub_cancel, ← hbefore]
  exact getElem?_filter_of_kept hat ((holds_child plain hc htest hc).trans hself)

/-- The step that a label shows leads from a node to the one child that it labels. -/
theorem from_child (plain : ∀ l n, d.nameAt? l = some n → n.space = none)
    (hsize : (siblingsAt d.children p).length < 2 ^ 53)
    (hc : (siblingsAt d.children p)[i]? = some c) (htest : testOf? c = some test) :
    Step.from d ns ⟨.child, test, [.number (.ofNat (placeAmong (siblingsAt d.children p) i c))]⟩
      (ofPath p) = .ok [ofPath (p ++ [i])] := by
  have hlt : i < (siblingsAt d.children p).length := (List.getElem?_eq_some_iff.1 hc).1
  have hplace := Document.placeAmong_le (siblingsAt d.children p) i c
  have hlength : ((d.childLocations (ofPath p)).filter fun m => test.holds d ns false m).length <
      2 ^ 53 := by
    refine Nat.lt_of_le_of_lt (List.length_filter_le _ _) ?_
    rwa [Document.childLocations_ofPath, List.length_map, List.length_range]
  have hpositive : placeAmong (siblingsAt d.children p) i c ≠ 0 := Nat.succ_ne_zero _
  refine (keepAll_number hpositive ?_ hlength).trans ?_
  · exact Nat.lt_of_le_of_lt hplace (Nat.lt_of_le_of_lt hlt hsize)
  · rw [getElem?_children plain hc htest]
    rfl

/-! ## The step to an attribute -/

/-- An attribute is found by its name, because no other one of the element has it. -/
theorem from_attribute (plain : ∀ l n, d.nameAt? l = some n → n.space = none)
    (distinct : ∀ c, d.contentAt? (ofPath p) = some c → (c.attributes.map (·.name)).Nodup)
    {n : ExpandedName} (hn : d.nameAt? ⟨p, some i⟩ = some n) (ns : Namespaces) :
    ∃ ms, Step.from d ns ⟨.attributes, .name none n.localName, []⟩ (ofPath p) = .ok ms ∧
      ∀ m, m ∈ ms ↔ m = ⟨p, some i⟩ := by
  refine ⟨_, rfl, fun m => ?_⟩
  rw [List.mem_filter]
  constructor
  · rintro ⟨hm, hholds⟩
    obtain ⟨j, -, rfl⟩ := List.mem_map.1 hm
    rw [NodeTest.holds, Bool.and_eq_true, Option.any_eq_true] at hholds
    obtain ⟨-, n', hn', hsame⟩ := hholds
    rw [Bool.and_true, beq_iff_eq] at hsame
    obtain rfl := ExpandedName.eq_of_plain (plain _ n' hn') (plain _ n hn) hsame
    rw [Document.attribute_eq_of_name_eq distinct hn' hn]
    rfl
  · rintro rfl
    refine ⟨Document.mem_attributeLocations hn, ?_⟩
    rw [NodeTest.holds, hn]
    simp [Location.isAttribute]

/-! ## The steps to a node -/

/-- The texts spell steps that lead from the document node to the one node. -/
def Locates (d : Document) (ns : Namespaces) (segments : List String) (l : Location) : Prop :=
  ∃ steps, List.Forall₂ Spells segments steps ∧ walk d ns steps [.root] = .ok [l]

variable {segments : List String} {s : String}

theorem Locates.root : Locates d ns [] (ofPath []) :=
  ⟨[], .nil, rfl⟩

/-- One step more leads to one node if it finds this one alone. -/
theorem Locates.step {step : Step} (h : Locates d ns segments l) (hs : Spells s step)
    (hfrom : step.from d ns l = .ok ms) (hms : ∀ k, k ∈ ms ↔ k = m) :
    Locates d ns (segments ++ [s]) m := by
  obtain ⟨steps, hspells, hwalk⟩ := h
  have halone : inOrder ms = [m] :=
    (ordered_inOrder ms).eq_of_mem_iff (ordered_singleton m) fun k => by
      rw [mem_inOrder, hms, List.mem_singleton]
  refine ⟨steps ++ [step], List.rel_append hspells (.cons hs .nil), ?_⟩
  rw [walk_append, hwalk]
  show walk d ns [step] [l] = _
  rw [walk_cons_singleton, hfrom]
  exact congrArg Except.ok halone

/-- A label spells the step to its node. -/
theorem spells_label {siblings : List Content} {scope : List Xml.Binding}
    (hname : ∀ n, c.name? = some n → n.space = none ∧ isName n.localName = true)
    (htest : testOf? c = some test) (hplace : placeAmong siblings i c < 2 ^ 53) :
    Spells (Document.stepLabel scope siblings i c)
      ⟨.child, test, [.number (.ofNat (placeAmong siblings i c))]⟩ := by
  rw [Document.stepLabel_eq]
  refine SpellsTest.step ?_ hplace
  cases c with
  | element n bs as cs =>
    cases htest
    obtain ⟨hspace, hlocal⟩ := hname n rfl
    rw [kindText, ExpandedName.display_of_plain hspace]
    exact .name hlocal
  | text t =>
    cases htest
    exact .kind .text
  | comment t =>
    cases htest
    exact .kind .comment
  | instruction => cases htest

/-- What lets the paths of a document be read as expressions: names without namespaces that are names
of the expressions, too, attributes that are known by their names, and siblings that can be counted. -/
structure Nameable (d : Document) : Prop where
  plain : ∀ l n, d.nameAt? l = some n → n.space = none
  named : ∀ l n, d.nameAt? l = some n → isName n.localName = true
  distinct : ∀ l c, d.contentAt? l = some c → (c.attributes.map (·.name)).Nodup
  countable : ∀ l, (d.childrenAt l).length < 2 ^ 53

/-- The labels of a node lead to it: with each of them, the one node that the labels so far lead to has
one child that is meant. -/
theorem locates_ofPath (hd : Nameable d) (hp : d.HasNode (ofPath p))
    (hkind : ∀ c, d.contentAt? (ofPath p) = some c → (testOf? c).isSome = true) :
    Locates d ns (d.labelsOf p) (ofPath p) := by
  induction p using List.reverseRecOn with
  | nil => exact .root
  | append_singleton p i ih =>
    obtain ⟨c, hc⟩ := Option.isSome_iff_exists.1 (Document.hasNode_child_iff.1 hp)
    obtain ⟨test, htest⟩ := Option.isSome_iff_exists.1 (hkind c (Document.contentAt?_child hc none))
    have haround : Locates d ns (d.labelsOf p) (ofPath p) := by
      refine ih hp.around fun e he => ?_
      rw [← Document.childrenAt_ofPath, Document.childrenAt_of_contentAt? he] at hc
      -- only an element has children
      cases e with
      | element => rfl
      | text | comment | instruction => cases hc
    have hsize : (siblingsAt d.children p).length < 2 ^ 53 := by
      rw [← Document.childrenAt_ofPath]
      exact hd.countable _
    have hplace : placeAmong (siblingsAt d.children p) i c < 2 ^ 53 := by
      have hlt := (List.getElem?_eq_some_iff.1 hc).1
      have hle := Document.placeAmong_le (siblingsAt d.children p) i c
      omega
    have hname : ∀ n, c.name? = some n → n.space = none ∧ isName n.localName = true := by
      intro n hn
      rw [← Document.nameAt?_child hc] at hn
      exact ⟨hd.plain _ n hn, hd.named _ n hn⟩
    rw [Document.labelsOf_child hc]
    exact haround.step (spells_label hname htest hplace) (from_child hd.plain hsize hc htest) (by simp)

theorem locates_segmentsOf (hd : Nameable d) (hl : d.HasNode l)
    (hkind : ∀ c, d.contentAt? l = some c → (testOf? c).isSome = true) :
    Locates d ns (d.segmentsOf l) l := by
  obtain ⟨p, a?⟩ := l
  have howner : Locates d ns (d.labelsOf p) (ofPath p) := locates_ofPath hd hl.owner hkind
  cases a? with
  | none =>
    rw [← Document.segmentsOf_ofPath] at howner
    exact howner
  | some k =>
    obtain ⟨a, ha⟩ := Option.isSome_iff_exists.1 (hl.isOwned rfl)
    have hn : d.nameAt? ⟨p, some k⟩ = some a.name := by rw [Document.nameAt?, ha, Option.map_some]
    obtain ⟨ms, hfrom, hms⟩ := from_attribute hd.plain (hd.distinct _) hn ns
    rw [Document.segmentsOf_attribute, Document.displayName_of_plain hn (hd.plain _ _ hn)]
    exact howner.step (spells_attribute (hd.named _ _ hn)) hfrom hms

/-! ### Which documents these are -/

/-- Whether the names are like that and the siblings can be counted, as it is computed. -/
def isNameable (d : Document) : Bool :=
  decide (d.children.length < 2 ^ 53) && Xml.everyAmong (fun c =>
    (c.name?.toList ++ c.attributes.map (·.name)).all (fun n => n.space.isNone && isName n.localName) &&
      decide (c.children.length < 2 ^ 53)) d.children

theorem name_of_isNameable (h : isNameable d = true) {n : ExpandedName} (hn : d.nameAt? l = some n) :
    n.space = none ∧ isName n.localName = true := by
  rw [isNameable, Bool.and_eq_true] at h
  obtain ⟨c, hc, hmem⟩ := Document.exists_of_nameAt? hn
  have hat := Document.of_everyAmong h.2 hc
  rw [Bool.and_eq_true, List.all_eq_true] at hat
  have hplain := hat.1 n hmem
  rwa [Bool.and_eq_true, Option.isNone_iff_eq_none] at hplain

theorem length_of_isNameable (h : isNameable d = true) (l : Location) :
    (d.childrenAt l).length < 2 ^ 53 := by
  rw [isNameable, Bool.and_eq_true, decide_eq_true_iff] at h
  rw [Document.childrenAt]
  split
  · exact h.1
  · cases hc : d.contentAt? l with
    | none => simp
    | some c =>
      have hat := Document.of_everyAmong h.2 hc
      rw [Bool.and_eq_true, decide_eq_true_iff] at hat
      exact hat.2

end Crosswalk.XPath

namespace Crosswalk.Source

open Crosswalk.Xml (Content Document Location)
open Crosswalk.XPath

variable {src : Source} {l : Location}

theorem select_of_locates {segments : List String}
    (h : Locates src.document src.namespaces segments l)
    (node : Location) : src.select node ("/" ++ "/".intercalate segments) = .ok [l] := by
  obtain ⟨steps, hspells, hwalk⟩ := h
  rw [select_eq_ok_iff (parse_of_spells hspells), Expr.evaluate, Expr.eval]
  exact bind_eq_ok.2 ⟨[l], hwalk, rfl⟩

end Crosswalk.Source
