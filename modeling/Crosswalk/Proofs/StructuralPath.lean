import Crosswalk.Proofs.DistinctAttributes
import Crosswalk.Proofs.ValidNames
import Mathlib.Data.List.Basic
import Mathlib.Data.List.Induction

/-!
# What the path of a node tells

A run takes the path of a node for the node itself: in the keys of its values, in the names of its
join indexes and in its associations. A path is a sequence of labels, and it can be cut into them
again, because no name holds a slash or a bracket. So two nodes share a path exactly when at some
element two of their steps share a label.

A label shows the name with the alias of its namespace, but counts the siblings whose whole name is
the same. These are two different things as soon as aliases are declared more than once, so labels
can be shared: `NamesApart` says that they are not, and `structuralPath_injective_iff` that this is
all that paths need.
-/

namespace Crosswalk.Xml

namespace Document

/-! ## Where a node stands -/

theorem chain_append_singleton {siblings : List Content} {p : List Nat} {i : Nat} {c : Content}
    (h : (siblingsAt siblings p)[i]? = some c) :
    chain siblings (p ++ [i]) = chain siblings p ++ [c] := by
  induction p generalizing siblings with
  | nil =>
    rw [siblingsAt] at h
    simp only [List.nil_append, chain, h]
  | cons k rest ih =>
    rw [siblingsAt] at h
    rw [List.cons_append, chain, chain]
    cases hk : siblings[k]? with
    | some e =>
      rw [hk] at h
      simp only []
      rw [ih h, List.cons_append]
    | none => rw [hk] at h; simp at h

variable {d : Document} {p : List Nat} {i : Nat} {c : Content}

theorem scopeAt_child (h : (siblingsAt d.children p)[i]? = some c) (a? : Option Nat) :
    d.scopeAt ⟨p ++ [i], a?⟩ = extendScope c.bindings (d.scopeAt (.ofPath p)) := by
  simp only [scopeAt, Location.ofPath]
  rw [chain_append_singleton h, List.foldl_append]
  rfl

/-- Where a node stands among its siblings of one kind, from one. -/
def placeAt (d : Document) (l : Location) : Nat :=
  match l.path.getLast?, d.contentAt? l with
  | some i, some c =>
    (((d.childrenAt (.ofPath l.path.dropLast)).take i).filter c.sameKind).length + 1
  | _, _ => 0

/-- Names that are shown alike are told apart by what else a step says: two sibling elements by
their places, and two attributes of an element by nothing else. -/
structure NamesApart (d : Document) : Prop where
  elements : ∀ path i j, d.HasNode (.ofPath (path ++ [i])) → d.HasNode (.ofPath (path ++ [j])) →
    (d.nameAt? (.ofPath (path ++ [i]))).isSome → (d.nameAt? (.ofPath (path ++ [j]))).isSome →
    d.displayName (.ofPath (path ++ [i])) = d.displayName (.ofPath (path ++ [j])) →
    d.placeAt (.ofPath (path ++ [i])) = d.placeAt (.ofPath (path ++ [j])) → i = j
  attributes : ∀ path i j, d.HasNode ⟨path, some i⟩ → d.HasNode ⟨path, some j⟩ →
    d.displayName ⟨path, some i⟩ = d.displayName ⟨path, some j⟩ → i = j

/-! ## Labels

A label is a shown name, or the word for another kind of node, and a place in brackets. The bracket is
in no name and no word, so a label falls apart in one way only. -/

/-- What stands before the bracket of a label. -/
def kindText (scope : List Binding) : Content → String
  | .element n _ _ _ => n.display scope
  | .text _ => "text()"
  | .comment _ => "comment()"
  | .instruction _ _ => "processing-instruction()"

/-- The place of a node among those before it. -/
def placeAmong (siblings : List Content) (i : Nat) (c : Content) : Nat :=
  ((siblings.take i).filter c.sameKind).length + 1

theorem stepLabel_eq (scope : List Binding) (siblings : List Content) (i : Nat) (c : Content) :
    stepLabel scope siblings i c =
      kindText scope c ++ "[" ++ toString (placeAmong siblings i c) ++ "]" := by
  cases c <;> rfl

def ScopeValid (scope : List Binding) : Prop :=
  ∀ b ∈ scope, b.isNamed = true

theorem ScopeValid.extend {own inherited : List Binding} (hown : ScopeValid own)
    (hinherited : ScopeValid inherited) : ScopeValid (extendScope own inherited) := by
  intro b hb
  rcases List.mem_append.1 hb with hb | hb
  · exact hown b hb
  · exact hinherited b (List.mem_filter.1 hb).1

theorem ScopeValid.alias {scope : List Binding} (h : ScopeValid scope) {uri a : String}
    (ha : aliasOf? scope uri = some a) : isNameText a = true := by
  unfold aliasOf? at ha
  split at ha
  · simp only [Option.some.injEq] at ha
    subst ha
    decide
  · obtain ⟨b, hb, hba⟩ := Option.bind_eq_some_iff.1 ha
    have := h b (List.mem_of_find?_eq_some hb)
    rw [Binding.isNamed, hba] at this
    exact this

theorem isNameText_append {s t : String} (hs : isNameText s = true) (ht : isNameText t = true) :
    isNameText (s ++ t) = true := by
  rw [isNameText, List.all_eq_true] at *
  intro c hc
  rw [String.toList_append, List.mem_append] at hc
  exact hc.elim (hs c) (ht c)

theorem isNameText_display {scope : List Binding} (hscope : ScopeValid scope) {n : ExpandedName}
    (hn : isNameText n.localName = true) : isNameText (n.display scope) = true := by
  unfold ExpandedName.display
  split
  next a ha =>
    obtain ⟨uri, -, ha⟩ := Option.bind_eq_some_iff.1 ha
    split
    · exact hn
    · exact isNameText_append (isNameText_append (hscope.alias ha) (by decide)) hn
  next => exact hn

/-- Whether a character can stand in no name. -/
theorem not_mem_of_isNameText {s : String} (hs : isNameText s = true) {c : Char}
    (hc : isNameChar c = false) : c ∉ s.toList := by
  intro hmem
  rw [isNameText, List.all_eq_true] at hs
  rw [hs c hmem] at hc
  cases hc

/-- Whether the names that a label may show are texts of names. -/
def LabelValid (scope : List Binding) (c : Content) : Prop :=
  ScopeValid scope ∧ ∀ n ∈ c.name?, isNameText n.localName = true

theorem not_mem_kindText {scope : List Binding} {c : Content} (hc : LabelValid scope c) {x : Char}
    (hx : isNameChar x = false) (hparen : x ≠ '(' ∧ x ≠ ')') : x ∉ (kindText scope c).toList := by
  have words : (["text()", "comment()", "processing-instruction()"].all fun s =>
      s.toList.all fun y => isNameChar y || y == '(' || y == ')') = true := by decide
  have outside : ∀ s ∈ ["text()", "comment()", "processing-instruction()"], x ∉ s.toList := by
    intro s hs hmem
    have hword := List.all_eq_true.1 (List.all_eq_true.1 words s hs) x hmem
    simp [hx, hparen] at hword
  cases c with
  | element n bs as cs => exact not_mem_of_isNameText (isNameText_display hc.1 (hc.2 n rfl)) hx
  | text t => exact outside _ (by simp [kindText])
  | comment t => exact outside _ (by simp [kindText])
  | instruction t data => exact outside _ (by simp [kindText])

theorem toString_injective {m n : Nat} (h : toString m = toString n) : m = n := by
  have hdigits : Nat.toDigits 10 m = Nat.toDigits 10 n := by
    rw [← Nat.toList_repr, ← Nat.toList_repr]
    exact congrArg String.toList h
  rw [← Nat.ofDigitChars_ten_toDigits (n := m), hdigits, Nat.ofDigitChars_ten_toDigits]

theorem stepLabel_parts {scope scope' : List Binding} {siblings : List Content} {i j : Nat}
    {c e : Content} (hc : LabelValid scope c)
    (h : stepLabel scope siblings i c = stepLabel scope' siblings j e) :
    kindText scope c = kindText scope' e ∧ placeAmong siblings i c = placeAmong siblings j e := by
  have hchars := congrArg String.toList h
  have bracket : "[".toList = ['['] := rfl
  simp only [stepLabel_eq, String.toList_append, List.append_assoc, bracket, List.cons_append,
    List.nil_append] at hchars
  have hname : '[' ∉ (kindText scope c).toList := not_mem_kindText hc (by decide) (by decide)
  have hplaces : '[' ∉ (toString (placeAmong siblings i c)).toList ++ "]".toList := by
    intro hmem
    rcases List.mem_append.1 hmem with hmem | hmem
    · rw [Nat.toString_eq_repr, Nat.toList_repr] at hmem
      exact absurd (Nat.isDigit_of_mem_toDigits (by decide) (by decide) hmem) (by decide)
    · exact absurd hmem (by decide)
  obtain ⟨hkind, -, hplace⟩ := (List.append_cons_inj_of_notMem hname hplaces).1 hchars
  refine ⟨String.toList_inj.1 hkind, toString_injective (String.toList_inj.1 ?_)⟩
  exact List.append_cancel_right hplace

theorem display_ne_word {scope : List Binding} {n : ExpandedName} {bs : List Binding}
    {as : List Attribute} {cs : List Content} (hc : LabelValid scope (.element n bs as cs))
    {w : String} (hw : '(' ∈ w.toList) : n.display scope ≠ w := by
  rintro rfl
  exact not_mem_of_isNameText (isNameText_display hc.1 (hc.2 n rfl)) (by decide) hw

/-- Labels that show the same tell elements from other nodes, and these from each other. -/
theorem sameKind_of_kindText {scope scope' : List Binding} {c e : Content}
    (hc : LabelValid scope c) (he : LabelValid scope' e)
    (h : kindText scope c = kindText scope' e) :
    (c.name?.isSome = true ∧ e.name?.isSome = true) ∨ c.sameKind e = true := by
  cases c <;> cases e <;> simp only [kindText] at h
  case element.element => exact .inl ⟨rfl, rfl⟩
  case element.text | element.comment | element.instruction =>
    exact absurd h (display_ne_word hc (by decide))
  case text.element | comment.element | instruction.element =>
    exact absurd h.symm (display_ne_word he (by decide))
  case text.text | comment.comment | instruction.instruction => exact .inr rfl
  all_goals simp at h

/-- Nodes of one kind are counted alike. -/
theorem sameKind_congr {c e : Content} (h : c.sameKind e = true) (x : Content) :
    c.sameKind x = e.sameKind x := by
  cases c <;> cases e <;> simp only [Content.sameKind, beq_iff_eq, Bool.false_eq_true] at h
  · subst h; cases x <;> rfl
  all_goals cases x <;> rfl

/-- Two nodes of one kind never have the same place. -/
theorem placeAmong_lt {siblings : List Content} {i j : Nat} {c e : Content} (hij : i < j)
    (hc : siblings[i]? = some c) (h : e.sameKind c = true) :
    placeAmong siblings i e < placeAmong siblings j e := by
  have hnext : (siblings.take (i + 1)).filter e.sameKind =
      (siblings.take i).filter e.sameKind ++ [c] := by
    rw [List.take_add_one, hc, List.filter_append]
    simp [h]
  have hstart : siblings.take (i + 1) <+: siblings.take j :=
    List.take_prefix_take_left (by omega)
  have hlength := (hstart.filter e.sameKind).length_le
  rw [hnext, List.length_append, List.length_singleton] at hlength
  unfold placeAmong
  omega

theorem placeAmong_le (siblings : List Content) (i : Nat) (c : Content) :
    placeAmong siblings i c ≤ i + 1 := by
  have := List.length_filter_le c.sameKind (siblings.take i)
  rw [List.length_take] at this
  rw [placeAmong]
  omega

theorem eq_of_placeAmong_eq {siblings : List Content} {i j : Nat} {c e : Content}
    (hc : siblings[i]? = some c) (he : siblings[j]? = some e) (hsame : c.sameKind e = true)
    (h : placeAmong siblings i c = placeAmong siblings j e) : i = j := by
  have hcongr : placeAmong siblings j c = placeAmong siblings j e := by
    rw [placeAmong, placeAmong, funext (sameKind_congr hsame)]
  rcases Nat.lt_trichotomy i j with hlt | heq | hlt
  · have := placeAmong_lt hlt hc (e := c) (by cases c <;> simp [Content.sameKind])
    omega
  · exact heq
  · have := placeAmong_lt hlt he hsame
    omega

/-! ## The steps of a path

The steps of a node are those of its parent and one more. -/

theorem namesValidAll_siblingsAt {siblings : List Content} (p : List Nat)
    (h : namesValidAll siblings = true) : namesValidAll (siblingsAt siblings p) = true := by
  induction p generalizing siblings with
  | nil => exact h
  | cons i rest ih =>
    rw [siblingsAt]
    split
    next c hc =>
      have hvalid := namesValidAll_iff.1 h c (List.mem_of_getElem? hc)
      refine ih ?_
      cases c with
      | element =>
        simp only [Content.namesValid, Bool.and_eq_true] at hvalid
        exact hvalid.2
      | text | comment | instruction => rfl
    next => rfl

theorem namesValid_of_mem_chain {siblings : List Content} {p : List Nat} {c : Content}
    (h : namesValidAll siblings = true) (hc : c ∈ chain siblings p) : c.namesValid = true := by
  induction p generalizing siblings with
  | nil => simp [chain] at hc
  | cons i rest ih =>
    rw [chain] at hc
    split at hc
    next e he =>
      rcases List.mem_cons.1 hc with rfl | hc
      · exact namesValidAll_iff.1 h _ (List.mem_of_getElem? he)
      · have hbelow := namesValidAll_siblingsAt [i] h
        simp only [siblingsAt, he] at hbelow
        exact ih hbelow hc
    next => simp at hc

theorem scopeValid_of_namesValid {c : Content} (h : c.namesValid = true) :
    ScopeValid c.bindings := by
  cases c with
  | element =>
    simp only [Content.namesValid, Bool.and_eq_true, List.all_eq_true] at h
    exact h.1.1.2
  | text | comment | instruction => simp [ScopeValid, Content.bindings]

theorem scopeValid_foldl {cs : List Content} {scope : List Binding} (hscope : ScopeValid scope)
    (hcs : ∀ c ∈ cs, c.namesValid = true) :
    ScopeValid (cs.foldl (fun scope c => extendScope c.bindings scope) scope) := by
  induction cs generalizing scope with
  | nil => exact hscope
  | cons c rest ih =>
    obtain ⟨hc, hrest⟩ := List.forall_mem_cons.1 hcs
    exact ih ((scopeValid_of_namesValid hc).extend hscope) hrest

theorem scopeValid_scopeAt (valid : d.namesValid = true) (l : Location) :
    ScopeValid (d.scopeAt l) :=
  scopeValid_foldl (by simp [ScopeValid]) fun _ hc => namesValid_of_mem_chain valid hc

theorem labelValid_child (valid : d.namesValid = true)
    (h : (siblingsAt d.children p)[i]? = some c) (l : Location) : LabelValid (d.scopeAt l) c := by
  refine ⟨scopeValid_scopeAt valid l, fun n hn => ?_⟩
  have hc := namesValidAll_iff.1 (namesValidAll_siblingsAt p valid) c (List.mem_of_getElem? h)
  cases c with
  | element m bs as cs =>
    simp only [Content.name?, Option.mem_def, Option.some.injEq] at hn
    simp only [Content.namesValid, Bool.and_eq_true] at hc
    exact hn ▸ hc.1.1.1
  | text | comment | instruction => simp [Content.name?] at hn

/-- The labels on the way to a path. -/
def labelsOf (d : Document) (p : List Nat) : List String :=
  stepLabels [] d.children p

theorem stepLabels_append_singleton {siblings : List Content} {p : List Nat} {i : Nat} {c : Content}
    (scope : List Binding) (h : (siblingsAt siblings p)[i]? = some c) :
    stepLabels scope siblings (p ++ [i]) = stepLabels scope siblings p ++
      [stepLabel (extendScope c.bindings
        ((chain siblings p).foldl (fun scope c => extendScope c.bindings scope) scope))
        (siblingsAt siblings p) i c] := by
  induction p generalizing siblings scope with
  | nil =>
    rw [siblingsAt] at h
    simp only [List.nil_append, stepLabels, h, chain, List.foldl_nil, siblingsAt]
  | cons k rest ih =>
    rw [siblingsAt] at h
    cases hk : siblings[k]? with
    | some e =>
      rw [hk] at h
      simp only [List.cons_append, stepLabels, hk, chain, List.foldl_cons, siblingsAt]
      rw [ih _ h]
    | none => rw [hk] at h; simp at h

theorem labelsOf_child (h : (siblingsAt d.children p)[i]? = some c) :
    d.labelsOf (p ++ [i]) = d.labelsOf p ++
      [stepLabel (d.scopeAt (.ofPath (p ++ [i]))) (siblingsAt d.children p) i c] := by
  rw [Location.ofPath, scopeAt_child h]
  exact stepLabels_append_singleton [] h

theorem nameAt?_child (h : (siblingsAt d.children p)[i]? = some c) :
    d.nameAt? (.ofPath (p ++ [i])) = c.name? := by
  simp only [nameAt?, Location.ofPath]
  rw [contentAt?_child h, Option.bind_some]

theorem displayName_child (h : (siblingsAt d.children p)[i]? = some c)
    (hname : c.name?.isSome = true) :
    d.displayName (.ofPath (p ++ [i])) = kindText (d.scopeAt (.ofPath (p ++ [i]))) c := by
  rw [displayName, nameAt?_child h]
  cases c with
  | element => rfl
  | text | comment | instruction => simp [Content.name?] at hname

theorem placeAt_child (h : (siblingsAt d.children p)[i]? = some c) :
    d.placeAt (.ofPath (p ++ [i])) = placeAmong (siblingsAt d.children p) i c := by
  simp only [placeAt, Location.ofPath, List.getLast?_append, List.getLast?_singleton,
    Option.some_or, List.dropLast_concat]
  rw [contentAt?_child h]
  simp only []
  rw [← Location.ofPath, childrenAt_ofPath]
  rfl

/-- Two siblings with one label are the same. -/
theorem child_eq_of_label_eq (valid : d.namesValid = true) (apart : d.NamesApart) {j : Nat}
    {e : Content} (hc : (siblingsAt d.children p)[i]? = some c)
    (he : (siblingsAt d.children p)[j]? = some e)
    (h : stepLabel (d.scopeAt (.ofPath (p ++ [i]))) (siblingsAt d.children p) i c =
      stepLabel (d.scopeAt (.ofPath (p ++ [j]))) (siblingsAt d.children p) j e) : i = j := by
  have hvalid := labelValid_child valid hc (.ofPath (p ++ [i]))
  have hvalid' := labelValid_child valid he (.ofPath (p ++ [j]))
  obtain ⟨hkind, hplace⟩ := stepLabel_parts hvalid h
  rcases sameKind_of_kindText hvalid hvalid' hkind with ⟨hname, hname'⟩ | hsame
  · refine apart.elements p i j (hasNode_child_iff.2 (by simp [hc]))
      (hasNode_child_iff.2 (by simp [he])) (nameAt?_child hc ▸ hname) (nameAt?_child he ▸ hname')
      ?_ ?_
    · rw [displayName_child hc hname, displayName_child he hname', hkind]
    · rw [placeAt_child hc, placeAt_child he, hplace]
  · exact eq_of_placeAmong_eq hc he hsame hplace

/-- The child indexes of a path can be read off its labels. -/
theorem path_eq_of_labelsOf_eq (valid : d.namesValid = true) (apart : d.NamesApart)
    {p q : List Nat} (hp : d.HasNode (.ofPath p)) (hq : d.HasNode (.ofPath q))
    (h : d.labelsOf p = d.labelsOf q) : p = q := by
  induction p using List.reverseRecOn generalizing q with
  | nil =>
    rcases List.eq_nil_or_concat q with rfl | ⟨q, j, rfl⟩
    · rfl
    · rw [List.concat_eq_append] at hq h
      obtain ⟨e, he⟩ := Option.isSome_iff_exists.1 (hasNode_child_iff.1 hq)
      rw [labelsOf_child he] at h
      simp [labelsOf, stepLabels] at h
  | append_singleton p i ih =>
    obtain ⟨c, hc⟩ := Option.isSome_iff_exists.1 (hasNode_child_iff.1 hp)
    rw [labelsOf_child hc] at h
    rcases List.eq_nil_or_concat q with rfl | ⟨q, j, rfl⟩
    · simp [labelsOf, stepLabels] at h
    · rw [List.concat_eq_append] at hq h ⊢
      obtain ⟨e, he⟩ := Option.isSome_iff_exists.1 (hasNode_child_iff.1 hq)
      rw [labelsOf_child he] at h
      obtain ⟨hlabels, hlabel⟩ := List.append_inj' h rfl
      obtain rfl := ih hp.around hq.around hlabels
      rw [child_eq_of_label_eq valid apart hc he (List.singleton_inj.1 hlabel)]

/-! ## The path as a text

The labels stand between slashes, and the name of an attribute comes last, behind an at sign that
no label has. -/

/-- The parts of the path of a node. -/
def segmentsOf (d : Document) (l : Location) : List String :=
  d.labelsOf l.path ++ if l.isAttribute then ["@" ++ d.displayName l] else []

theorem segmentsOf_ofPath (d : Document) (p : List Nat) :
    d.segmentsOf (.ofPath p) = d.labelsOf p := by
  simp [segmentsOf, Location.ofPath, Location.isAttribute]

theorem segmentsOf_attribute (d : Document) (p : List Nat) (i : Nat) :
    d.segmentsOf ⟨p, some i⟩ = d.labelsOf p ++ ["@" ++ d.displayName ⟨p, some i⟩] := rfl

theorem labelsOf_ne_nil {p : List Nat} (h : d.HasNode (.ofPath p)) (hp : p ≠ []) :
    d.labelsOf p ≠ [] := by
  rcases List.eq_nil_or_concat p with rfl | ⟨q, i, rfl⟩
  · exact absurd rfl hp
  · rw [List.concat_eq_append] at h ⊢
    obtain ⟨c, hc⟩ := Option.isSome_iff_exists.1 (hasNode_child_iff.1 h)
    rw [labelsOf_child hc]
    simp

theorem structuralPath_eq {l : Location} (h : d.HasNode l) :
    d.structuralPath l = "/" ++ "/".intercalate (d.segmentsOf l) := by
  obtain ⟨p, a?⟩ := l
  cases a? with
  | none => simp [structuralPath, segmentsOf, labelsOf, Location.isAttribute]
  | some a =>
    have hlabels := labelsOf_ne_nil h.owner (h.path_ne_nil rfl)
    simp only [structuralPath, segmentsOf, Location.isAttribute, Option.isSome_some, if_true]
    rw [String.intercalate_append_of_ne_nil hlabels (by simp), String.intercalate_singleton]
    simp only [labelsOf, String.append_assoc]
    rfl

theorem not_mem_label {scope : List Binding} {siblings : List Content} {i : Nat} {c : Content}
    (hc : LabelValid scope c) {x : Char} (hx : isNameChar x = false)
    (hother : x ≠ '(' ∧ x ≠ ')' ∧ x ≠ '[' ∧ x ≠ ']') (hdigit : x.isDigit = false) :
    x ∉ (stepLabel scope siblings i c).toList := by
  obtain ⟨hopen, hclose, hleft, hright⟩ := hother
  simp only [stepLabel_eq, String.toList_append, List.mem_append, not_or]
  refine ⟨⟨⟨not_mem_kindText hc hx ⟨hopen, hclose⟩, ?_⟩, ?_⟩, ?_⟩
  · simpa using hleft
  · intro hmem
    rw [Nat.toString_eq_repr, Nat.toList_repr] at hmem
    rw [Nat.isDigit_of_mem_toDigits (by decide) (by decide) hmem] at hdigit
    cases hdigit
  · simpa using hright

/-- Every label is that of a step. -/
theorem exists_step_of_mem_labelsOf (valid : d.namesValid = true) {p : List Nat}
    (hp : d.HasNode (.ofPath p)) {s : String} (hs : s ∈ d.labelsOf p) :
    ∃ scope siblings i c, LabelValid scope c ∧ s = stepLabel scope siblings i c := by
  induction p using List.reverseRecOn with
  | nil => simp [labelsOf, stepLabels] at hs
  | append_singleton p i ih =>
    obtain ⟨c, hc⟩ := Option.isSome_iff_exists.1 (hasNode_child_iff.1 hp)
    rw [labelsOf_child hc] at hs
    rcases List.mem_append.1 hs with hs | hs
    · exact ih hp.around hs
    · exact ⟨_, _, _, _, labelValid_child valid hc _, List.mem_singleton.1 hs⟩

/-- No label holds a slash or an at sign. -/
theorem not_mem_labelsOf (valid : d.namesValid = true) {x : Char} (hx : x = '/' ∨ x = '@')
    {p : List Nat} (hp : d.HasNode (.ofPath p)) : ∀ s ∈ d.labelsOf p, x ∉ s.toList := by
  intro s hs
  obtain ⟨scope, siblings, i, c, hlabel, rfl⟩ := exists_step_of_mem_labelsOf valid hp hs
  rcases hx with rfl | rfl
  · exact not_mem_label hlabel (by decide) (by decide) (by decide)
  · exact not_mem_label hlabel (by decide) (by decide) (by decide)

theorem isNameText_displayName {l : Location} (valid : d.namesValid = true) (h : d.HasNode l)
    (ha : l.isAttribute = true) : isNameText (d.displayName l) = true := by
  obtain ⟨p, a?⟩ := l
  obtain ⟨k, rfl⟩ : ∃ k, a? = some k := Option.isSome_iff_exists.1 ha
  obtain ⟨a, hattribute⟩ := Option.isSome_iff_exists.1 (h.isOwned rfl)
  have hname : d.nameAt? ⟨p, some k⟩ = some a.name := by
    rw [nameAt?, hattribute, Option.map_some]
  rw [displayName, hname]
  refine isNameText_display (scopeValid_scopeAt valid _) ?_
  simp only [attributeAt?, Option.bind_eq_bind, Option.bind_some] at hattribute
  obtain ⟨c, hc, hget⟩ := Option.bind_eq_some_iff.1 hattribute
  rcases List.eq_nil_or_concat p with rfl | ⟨q, i, rfl⟩
  · simp [contentAt?, follow?] at hc
  · rw [List.concat_eq_append, contentAt?, follow?_append_singleton] at hc
    have hvalid := namesValidAll_iff.1 (namesValidAll_siblingsAt q valid) c (List.mem_of_getElem? hc)
    have hmem := List.mem_of_getElem? hget
    cases c with
    | element =>
      simp only [Content.namesValid, Bool.and_eq_true, List.all_eq_true] at hvalid
      exact hvalid.1.2 a hmem
    | text | comment | instruction => simp [Content.attributes] at hmem

/-- What holds of a part of a path: it says something, and there is no slash in it. -/
theorem segmentsOf_valid {l : Location} (valid : d.namesValid = true) (h : d.HasNode l) :
    ∀ s ∈ d.segmentsOf l, s ≠ "" ∧ '/' ∉ s.toList := by
  intro s hs
  rcases List.mem_append.1 hs with hs | hs
  · refine ⟨?_, not_mem_labelsOf valid (.inl rfl) h.owner s hs⟩
    rintro rfl
    obtain ⟨scope, siblings, i, c, -, hlabel⟩ := exists_step_of_mem_labelsOf valid h.owner hs
    rw [stepLabel_eq] at hlabel
    simpa using congrArg String.toList hlabel
  · split at hs
    next ha =>
      rw [List.mem_singleton] at hs
      subst hs
      refine ⟨fun h => by simpa using congrArg String.toList h, ?_⟩
      rw [String.toList_append, List.mem_append, not_or]
      exact ⟨by decide, not_mem_of_isNameText (isNameText_displayName valid h ha) (by decide)⟩
    next => simp at hs

/-- Texts between slashes can be told again if each says something and holds no slash. -/
theorem intercalate_slash_injective {xs ys : List String}
    (hxs : ∀ s ∈ xs, s ≠ "" ∧ '/' ∉ s.toList) (hys : ∀ s ∈ ys, s ≠ "" ∧ '/' ∉ s.toList)
    (h : "/".intercalate xs = "/".intercalate ys) : xs = ys := by
  have split_eq : ∀ zs : List String, zs ≠ [] → (∀ s ∈ zs, s ≠ "" ∧ '/' ∉ s.toList) →
      ("/".intercalate zs).toList.splitOn '/' = zs.map String.toList := by
    intro zs hne hzs
    rw [String.toList_intercalate]
    refine List.splitOn_intercalate '/' ?_ (by simpa using hne)
    intro cs hcs
    obtain ⟨s, hs, rfl⟩ := List.mem_map.1 hcs
    exact (hzs s hs).2
  have nil_of_empty : ∀ zs : List String, (∀ s ∈ zs, s ≠ "" ∧ '/' ∉ s.toList) →
      "/".intercalate zs = "" → zs = [] := by
    intro zs hzs hempty
    by_contra hne
    have hsplit := split_eq zs hne hzs
    rw [hempty] at hsplit
    obtain ⟨s, rest, rfl⟩ := List.exists_cons_of_ne_nil hne
    simp only [String.toList_empty, List.splitOn_nil, List.map_cons, List.cons.injEq] at hsplit
    exact (hzs s List.mem_cons_self).1 (String.toList_eq_nil_iff.1 hsplit.1.symm)
  by_cases hx : xs = []
  · subst hx
    exact (nil_of_empty ys hys (h ▸ String.intercalate_nil)).symm
  · by_cases hy : ys = []
    · subst hy
      exact nil_of_empty xs hxs (h ▸ String.intercalate_nil)
    · have hmap : xs.map String.toList = ys.map String.toList := by
        rw [← split_eq xs hx hxs, ← split_eq ys hy hys, h]
      exact (List.map_injective_iff.2 fun _ _ => String.toList_inj.1) hmap

theorem mem_intercalate {sep : List Char} {css : List (List Char)} {x : Char}
    (h : x ∈ sep.intercalate css) (hsep : x ∉ sep) : ∃ cs ∈ css, x ∈ cs := by
  induction css with
  | nil => simp at h
  | cons cs rest ih =>
    cases rest with
    | nil => exact ⟨cs, List.mem_singleton_self cs, by simpa using h⟩
    | cons ds rest =>
      rw [List.intercalate_cons_cons, List.mem_append, List.mem_append] at h
      rcases h with (h | h) | h
      · exact ⟨cs, List.mem_cons_self, h⟩
      · exact absurd h hsep
      · obtain ⟨es, hes, hx⟩ := ih h
        exact ⟨es, List.mem_cons_of_mem cs hes, hx⟩

/-- The path of a node that is no attribute holds no at sign. -/
theorem not_mem_structuralPath (valid : d.namesValid = true) {l : Location} (h : d.HasNode l)
    (hl : l.isAttribute = false) : '@' ∉ (d.structuralPath l).toList := by
  intro hmem
  rw [structuralPath_eq h, String.toList_append, List.mem_append] at hmem
  have hbelow := hmem.resolve_left (by decide)
  rw [String.toList_intercalate] at hbelow
  obtain ⟨cs, hcs, hx⟩ := mem_intercalate hbelow (by decide)
  obtain ⟨s, hs, rfl⟩ := List.mem_map.1 hcs
  rw [segmentsOf, hl, if_neg Bool.false_ne_true, List.append_nil] at hs
  exact not_mem_labelsOf valid (.inr rfl) h.owner s hs hx

/-! ## Which documents have paths that identify their nodes -/

theorem eq_of_structuralPath_eq (valid : d.namesValid = true) (apart : d.NamesApart)
    {l m : Location} (hl : d.HasNode l) (hm : d.HasNode m)
    (h : d.structuralPath l = d.structuralPath m) : l = m := by
  rw [structuralPath_eq hl, structuralPath_eq hm] at h
  have hsegments : d.segmentsOf l = d.segmentsOf m := by
    refine intercalate_slash_injective (segmentsOf_valid valid hl) (segmentsOf_valid valid hm) ?_
    have hchars := congrArg String.toList h
    simp only [String.toList_append] at hchars
    exact String.toList_inj.1 (List.append_cancel_left hchars)
  have no_sign : ∀ {n k : Location}, d.HasNode n → d.HasNode k → n.isAttribute = true →
      k.isAttribute = false → d.segmentsOf n ≠ d.segmentsOf k := by
    intro n k _ hk hn hk' heq
    have hmem : "@" ++ d.displayName n ∈ d.labelsOf k.path := by
      have : "@" ++ d.displayName n ∈ d.segmentsOf n := by simp [segmentsOf, hn]
      rw [heq] at this
      simpa [segmentsOf, hk'] using this
    exact not_mem_labelsOf valid (.inr rfl) hk.owner _ hmem (by simp [String.toList_append])
  obtain ⟨p, a?⟩ := l
  obtain ⟨q, b?⟩ := m
  cases a? with
  | none =>
    cases b? with
    | none =>
      have hlabels : d.labelsOf p = d.labelsOf q := by
        rw [← segmentsOf_ofPath, ← segmentsOf_ofPath]
        exact hsegments
      obtain rfl := path_eq_of_labelsOf_eq valid apart hl.owner hm.owner hlabels
      rfl
    | some j => exact absurd hsegments.symm (no_sign hm hl rfl rfl)
  | some i =>
    cases b? with
    | none => exact absurd hsegments (no_sign hl hm rfl rfl)
    | some j =>
      rw [segmentsOf_attribute, segmentsOf_attribute] at hsegments
      obtain ⟨hlabels, hname⟩ := List.append_inj' hsegments rfl
      obtain rfl := path_eq_of_labelsOf_eq valid apart hl.owner hm.owner hlabels
      have hdisplay : d.displayName ⟨p, some i⟩ = d.displayName ⟨p, some j⟩ := by
        have hchars := congrArg String.toList (List.singleton_inj.1 hname)
        simp only [String.toList_append] at hchars
        exact String.toList_inj.1 (List.append_cancel_left hchars)
      rw [apart.attributes p i j hl hm hdisplay]

/-- The paths of a document identify its nodes exactly if names that are shown alike are told
apart. -/
theorem structuralPath_injective_iff (valid : d.namesValid = true) :
    (∀ l m, d.HasNode l → d.HasNode m → d.structuralPath l = d.structuralPath m → l = m) ↔
      d.NamesApart := by
  constructor
  · intro injective
    refine ⟨fun path i j hi hj hi' hj' hdisplay hplace => ?_, fun path i j hi hj hdisplay => ?_⟩
    · obtain ⟨c, hc⟩ := Option.isSome_iff_exists.1 (hasNode_child_iff.1 hi)
      obtain ⟨e, he⟩ := Option.isSome_iff_exists.1 (hasNode_child_iff.1 hj)
      rw [nameAt?_child hc] at hi'
      rw [nameAt?_child he] at hj'
      rw [displayName_child hc hi', displayName_child he hj'] at hdisplay
      rw [placeAt_child hc, placeAt_child he] at hplace
      have hpath : path ++ [i] = path ++ [j] := by
        refine congrArg Location.path (injective _ _ hi hj ?_)
        rw [structuralPath_eq hi, structuralPath_eq hj, segmentsOf_ofPath, segmentsOf_ofPath,
          labelsOf_child hc, labelsOf_child he, stepLabel_eq, stepLabel_eq, hdisplay, hplace]
      simpa using hpath
    · have hsame := injective _ _ hi hj (by simp only [structuralPath, hdisplay])
      simpa using hsame
  · intro apart l m hl hm h
    exact eq_of_structuralPath_eq valid apart hl hm h

/-! ## Documents without namespaces

Where no name is in a namespace, a name is shown as it is, so nothing is shown alike that is not. -/

end Document

mutual

/-- Whether no name at a node or below it is in a namespace, and no element has two attributes of
one name. -/
def Content.isPlain : Content → Bool
  | .element name _ attributes children =>
    name.space.isNone && attributes.all (·.name.space.isNone) &&
      decide (attributes.map (·.name)).Nodup && isPlainAll children
  | .text _ => true
  | .comment _ => true
  | .instruction _ _ => true

def isPlainAll : List Content → Bool
  | [] => true
  | c :: cs => c.isPlain && isPlainAll cs

end

theorem isPlainAll_iff {cs : List Content} :
    isPlainAll cs = true ↔ ∀ c ∈ cs, c.isPlain = true := by
  induction cs with
  | nil => simp [isPlainAll]
  | cons c cs ih => simp [isPlainAll, ih]

theorem ExpandedName.display_of_plain {n : ExpandedName} (h : n.space = none)
    (scope : List Binding) : n.display scope = n.localName := by
  simp [display, h]

theorem ExpandedName.eq_of_plain {n m : ExpandedName} (hn : n.space = none) (hm : m.space = none)
    (h : n.localName = m.localName) : n = m := by
  cases n
  cases m
  simp_all

namespace Document

variable {d : Document} {p : List Nat} {i : Nat} {c : Content}

theorem isPlainAll_siblingsAt {siblings : List Content} (p : List Nat)
    (h : isPlainAll siblings = true) : isPlainAll (siblingsAt siblings p) = true := by
  induction p generalizing siblings with
  | nil => exact h
  | cons i rest ih =>
    rw [siblingsAt]
    split
    next c hc =>
      have hplain := isPlainAll_iff.1 h c (List.mem_of_getElem? hc)
      refine ih ?_
      cases c with
      | element =>
        simp only [Content.isPlain, Bool.and_eq_true] at hplain
        exact hplain.2
      | text | comment | instruction => rfl
    next => rfl

theorem isPlain_of_contentAt? (plain : isPlainAll d.children = true) {l : Location}
    (h : d.contentAt? l = some c) : c.isPlain = true := by
  obtain ⟨p, a?⟩ := l
  rcases List.eq_nil_or_concat p with rfl | ⟨q, i, rfl⟩
  · simp [contentAt?, follow?] at h
  · rw [List.concat_eq_append, contentAt?, follow?_append_singleton] at h
    exact isPlainAll_iff.1 (isPlainAll_siblingsAt q plain) c (List.mem_of_getElem? h)

theorem attributes_of_plain (plain : isPlainAll d.children = true) {l : Location}
    (h : d.contentAt? l = some c) :
    (∀ n ∈ c.attributes.map (·.name), n.space = none) ∧ (c.attributes.map (·.name)).Nodup := by
  have hplain := isPlain_of_contentAt? plain h
  cases c with
  | element n bs as cs =>
    simp only [Content.isPlain, Bool.and_eq_true, List.all_eq_true, decide_eq_true_eq,
      Option.isNone_iff_eq_none] at hplain
    exact ⟨List.forall_mem_map.2 hplain.1.1.2, hplain.1.2⟩
  | text | comment | instruction => exact ⟨by simp [Content.attributes], List.nodup_nil⟩

theorem displayName_of_plain {l : Location} {n : ExpandedName} (h : d.nameAt? l = some n)
    (hn : n.space = none) : d.displayName l = n.localName := by
  rw [displayName, h, Option.map_some, Option.getD_some, ExpandedName.display_of_plain hn]

theorem namesApart_of_plain (plain : isPlainAll d.children = true) : d.NamesApart := by
  have element_plain : ∀ {p : List Nat} {i : Nat} {n bs as cs},
      (siblingsAt d.children p)[i]? = some (Content.element n bs as cs) → n.space = none := by
    intro p i n bs as cs h
    have := isPlainAll_iff.1 (isPlainAll_siblingsAt p plain) _ (List.mem_of_getElem? h)
    simp only [Content.isPlain, Bool.and_eq_true, Option.isNone_iff_eq_none] at this
    exact this.1.1.1
  constructor
  · intro path i j hi hj hi' hj' hdisplay hplace
    obtain ⟨c, hc⟩ := Option.isSome_iff_exists.1 (hasNode_child_iff.1 hi)
    obtain ⟨e, he⟩ := Option.isSome_iff_exists.1 (hasNode_child_iff.1 hj)
    rw [nameAt?_child hc] at hi'
    rw [nameAt?_child he] at hj'
    rw [displayName_child hc hi', displayName_child he hj'] at hdisplay
    rw [placeAt_child hc, placeAt_child he] at hplace
    refine eq_of_placeAmong_eq hc he ?_ hplace
    cases c <;> simp only [Content.name?, Option.isSome_none, Bool.false_eq_true] at hi'
    cases e <;> simp only [Content.name?, Option.isSome_none, Bool.false_eq_true] at hj'
    have hn := element_plain hc
    have hm := element_plain he
    simp only [kindText, ExpandedName.display_of_plain hn, ExpandedName.display_of_plain hm]
      at hdisplay
    simp only [Content.sameKind, beq_iff_eq]
    exact ExpandedName.eq_of_plain hn hm hdisplay
  · intro path i j hi hj hdisplay
    have hnamed (k : Nat) (hk : d.HasNode ⟨path, some k⟩) :
        ∃ n, d.nameAt? ⟨path, some k⟩ = some n ∧ n.space = none := by
      obtain ⟨a, ha⟩ := Option.isSome_iff_exists.1 (hk.isOwned rfl)
      have hn : d.nameAt? ⟨path, some k⟩ = some a.name := by rw [nameAt?, ha, Option.map_some]
      obtain ⟨c, hc, hat⟩ := nameAt?_attribute_iff.1 hn
      exact ⟨a.name, hn, (attributes_of_plain plain hc).1 _ (List.mem_of_getElem? hat)⟩
    obtain ⟨n, hn, hspace⟩ := hnamed i hi
    obtain ⟨m, hm, hspace'⟩ := hnamed j hj
    rw [displayName_of_plain hn hspace, displayName_of_plain hm hspace'] at hdisplay
    obtain rfl := ExpandedName.eq_of_plain hspace hspace' hdisplay
    exact attribute_eq_of_name_eq (fun c hc => (attributes_of_plain plain hc).2) hn hm

theorem structuralPath_injective_plain :
    ∃ d, read? "<r a=\"1\" b=\"2\"><x/>t<x><!-- --></x><?p?></r>" = some d ∧
      d.namesValid = true ∧
      ∀ l m, d.HasNode l → d.HasNode m → d.structuralPath l = d.structuralPath m → l = m := by
  obtain ⟨d, hd⟩ := Option.isSome_iff_exists.1
    (by decide +kernel :
      (read? "<r a=\"1\" b=\"2\"><x/>t<x><!-- --></x><?p?></r>").isSome = true)
  have hplain : (read? "<r a=\"1\" b=\"2\"><x/>t<x><!-- --></x><?p?></r>").any
      (fun d => isPlainAll d.children) = true := by
    decide +kernel
  rw [hd] at hplain
  have valid := namesValid_of_read hd
  exact ⟨d, hd, valid, (structuralPath_injective_iff valid).2 (namesApart_of_plain hplain)⟩

/-- An element in no namespace and one in the default namespace that is declared on it: both are
shown by their local name, and each is the first of its name. -/
theorem structuralPath_shared_by_default_namespace :
    ∃ d, read? "<r><a/><a xmlns=\"u\"/></r>" = some d ∧ d.namesValid = true ∧
      ¬∀ l m, d.HasNode l → d.HasNode m → d.structuralPath l = d.structuralPath m → l = m := by
  obtain ⟨d, hd⟩ := Option.isSome_iff_exists.1
    (by decide +kernel : (read? "<r><a/><a xmlns=\"u\"/></r>").isSome = true)
  have hshared : (read? "<r><a/><a xmlns=\"u\"/></r>").any (fun d =>
      decide (d.HasNode (.ofPath [0, 0]) ∧ d.HasNode (.ofPath [0, 1]) ∧
        d.structuralPath (.ofPath [0, 0]) = d.structuralPath (.ofPath [0, 1]))) = true := by
    decide +kernel
  rw [hd] at hshared
  obtain ⟨hfirst, hsecond, hpath⟩ := of_decide_eq_true hshared
  refine ⟨d, hd, namesValid_of_read hd, fun injective => ?_⟩
  exact absurd (injective _ _ hfirst hsecond hpath) (by decide)

end Document

end Crosswalk.Xml
