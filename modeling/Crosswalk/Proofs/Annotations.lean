import Crosswalk.Xml.Reader
import Mathlib.Data.List.Forall2

/-!
# Annotated documents

Comments and processing instructions are notes to a reader: they may be written anywhere between the elements
and inside the texts of a document. A text that a note is written into falls in two. The elements stay what
they are, one by one, with their names, declarations and attributes, so that everything that is read from
elements alone can be followed through both documents at once, from an element and its counterpart to those
inside them.
-/

namespace Crosswalk.Xml

namespace Content

def isNote : Content → Bool
  | comment _ | instruction _ _ => true
  | _ => false

theorem isElement_of_isNote {n : Content} (hn : n.isNote = true) : n.isElement = false := by
  cases n <;> first | rfl | cases hn

theorem isElement_of_isNamed {c : Content} {name : String} (h : c.isNamed name = true) :
    c.isElement = true := by
  cases c <;> first | rfl | cases h

theorem isNamed_iff {c : Content} {name : String} (hc : c.isElement = true) :
    c.isNamed name = true ↔ c.localName = name := by
  cases c with
  | element => simp [isNamed, localName, name?]
  | _ => cases hc

theorem filter_isNamed (cs : List Content) (name : String) :
    cs.filter (isNamed · name) = (cs.filter isElement).filter (isNamed · name) := by
  rw [List.filter_filter]
  refine List.filter_congr fun c _ => ?_
  rw [Bool.eq_iff_iff, Bool.and_eq_true]
  exact (and_iff_left_of_imp isElement_of_isNamed).symm

theorem elementsNamed_eq (c : Content) (name : String) :
    c.elementsNamed name = c.elements.filter (isNamed · name) :=
  filter_isNamed c.children name

end Content

/-- The second contents are the first ones with notes written into them, at any depth. -/
inductive Annotated : List Content → List Content → Prop
  | nil : Annotated [] []
  | note {n : Content} {cs ds : List Content} (hn : n.isNote = true) (h : Annotated cs ds) :
    Annotated cs (n :: ds)
  | split {t u : String} {n : Content} {cs ds : List Content} (hn : n.isNote = true)
      (h : Annotated (.text u :: cs) ds) : Annotated (.text (t ++ u) :: cs) (.text t :: n :: ds)
  | keep {c : Content} {cs ds : List Content} (hc : c.isElement = false) (h : Annotated cs ds) :
    Annotated (c :: cs) (c :: ds)
  | within {name : ExpandedName} {bindings : List Binding} {attributes : List Attribute}
      {inner inner' cs ds : List Content} (hin : Annotated inner inner') (h : Annotated cs ds) :
    Annotated (.element name bindings attributes inner :: cs)
      (.element name bindings attributes inner' :: ds)

/-- An element and its counterpart, which has only more notes inside. -/
inductive Corresponds : Content → Content → Prop
  | intro {name : ExpandedName} {bindings : List Binding} {attributes : List Attribute}
      {inner inner' : List Content} (h : Annotated inner inner') :
    Corresponds (.element name bindings attributes inner) (.element name bindings attributes inner')

/-- The elements inside two elements, each with its counterpart. -/
def pairs (c d : Content) : List (Content × Content) :=
  c.elements.zip d.elements

def pairsNamed (c d : Content) (name : String) : List (Content × Content) :=
  (pairs c d).filter (·.1.isNamed name)

section

variable {c d : Content} {cs ds : List Content} {z : Content × Content} {key name : String}

namespace Annotated

/-- What holds of an element and its counterpart whenever it holds of those inside them, holds of all. The
induction is on how the notes were written; notes and texts are passed over. -/
theorem forall_elements {P : Content → Content → Prop}
    (step : ∀ c d, Corresponds c d → (∀ z ∈ pairs c d, P z.1 z.2) → P c d) (h : Annotated cs ds) :
    List.Forall₂ P (cs.filter Content.isElement) (ds.filter Content.isElement) := by
  induction h with
  | nil => exact .nil
  | note hn _ ih => rwa [List.filter_cons_of_neg (by simp [Content.isElement_of_isNote hn])]
  | split hn _ ih =>
    rw [List.filter_cons_of_neg (by simp [Content.isElement])] at ih ⊢
    rwa [List.filter_cons_of_neg (by simp [Content.isElement]),
      List.filter_cons_of_neg (by simp [Content.isElement_of_isNote hn])]
  | keep hc _ ih =>
    rwa [List.filter_cons_of_neg (by simp [hc]), List.filter_cons_of_neg (by simp [hc])]
  | within hin _ ihin ih =>
    rw [List.filter_cons_of_pos rfl, List.filter_cons_of_pos rfl]
    exact .cons (step _ _ (.intro hin) fun _ hz => (List.forall₂_iff_zip.1 ihin).2 hz) ih

/-- As many elements stand in the one as in the other, and they correspond one by one. -/
theorem corresponds (h : Annotated cs ds) :
    List.Forall₂ Corresponds (cs.filter Content.isElement) (ds.filter Content.isElement) :=
  h.forall_elements fun _ _ h _ => h

end Annotated

namespace Corresponds

theorem isElement_left (h : Corresponds c d) : c.isElement = true := by
  cases h
  rfl

theorem isElement_right (h : Corresponds c d) : d.isElement = true := by
  cases h
  rfl

theorem localName_eq (h : Corresponds c d) : d.localName = c.localName := by
  cases h
  rfl

theorem isNamed_eq (h : Corresponds c d) (name : String) : d.isNamed name = c.isNamed name := by
  cases h
  rfl

theorem plainAttribute?_eq (h : Corresponds c d) (key : String) :
    d.plainAttribute? key = c.plainAttribute? key := by
  cases h
  rfl

theorem elements (h : Corresponds c d) : List.Forall₂ Corresponds c.elements d.elements := by
  obtain ⟨h⟩ := h
  exact h.corresponds

theorem of_mem_pairs (h : Corresponds c d) (hz : z ∈ pairs c d) : Corresponds z.1 z.2 :=
  (List.forall₂_iff_zip.1 h.elements).2 hz

theorem of_mem_pairsNamed (h : Corresponds c d) (hz : z ∈ pairsNamed c d name) : Corresponds z.1 z.2 :=
  h.of_mem_pairs (List.mem_of_mem_filter hz)

theorem forall_pairsNamed (h : Corresponds c d) {P : Content × Content → Prop} :
    (∀ z ∈ pairsNamed c d name, P z) ↔ ∀ z ∈ pairs c d, z.1.localName = name → P z := by
  simp only [pairsNamed, List.mem_filter, and_imp]
  refine forall₂_congr fun z hz => ?_
  rw [Content.isNamed_iff (h.of_mem_pairs hz).isElement_left]

/-- Induction over an element and its counterpart. -/
theorem induction {P : Content → Content → Prop} (h : Corresponds c d)
    (step : ∀ c d, Corresponds c d → (∀ z ∈ pairs c d, P z.1 z.2) → P c d) : P c d := by
  refine step c d h fun z hz => ?_
  obtain ⟨h⟩ := h
  exact (List.forall₂_iff_zip.1 (h.forall_elements step)).2 hz

theorem elements_left (h : Corresponds c d) : c.elements = (pairs c d).map Prod.fst :=
  (List.map_fst_zip (Nat.le_of_eq h.elements.length_eq)).symm

theorem elements_right (h : Corresponds c d) : d.elements = (pairs c d).map Prod.snd :=
  (List.map_snd_zip (Nat.le_of_eq h.elements.length_eq.symm)).symm

theorem elementsNamed_left (h : Corresponds c d) (name : String) :
    c.elementsNamed name = (pairsNamed c d name).map Prod.fst := by
  rw [Content.elementsNamed_eq, h.elements_left, List.filter_map]
  rfl

theorem elementsNamed_right (h : Corresponds c d) (name : String) :
    d.elementsNamed name = (pairsNamed c d name).map Prod.snd := by
  rw [Content.elementsNamed_eq, h.elements_right, List.filter_map]
  refine congrArg (List.map Prod.snd) (List.filter_congr fun z hz => ?_)
  exact (h.of_mem_pairs hz).isNamed_eq name

/-- The text that an element starts with is cut off at the first note in it. -/
theorem exists_leadingText_append (h : Corresponds c d) : ∃ rest, c.leadingText = d.leadingText ++ rest := by
  obtain @⟨name, bindings, attributes, _, _, h⟩ := h
  cases h with
  | nil => exact ⟨"", rfl⟩
  | @note n _ ds hn _ =>
    have hnone : (Content.element name bindings attributes (n :: ds)).leadingText = "" := by
      cases n <;> first | rfl | cases hn
    exact ⟨_, by rw [hnone, String.empty_append]⟩
  | split hn _ => exact ⟨_, rfl⟩
  | @keep c cs ds _ _ =>
    have hsame : (Content.element name bindings attributes (c :: ds)).leadingText =
        (Content.element name bindings attributes (c :: cs)).leadingText := by
      cases c <;> rfl
    exact ⟨"", by rw [hsame, String.append_empty]⟩
  | within _ _ => exact ⟨"", rfl⟩

end Corresponds

end

/-! ## Roots -/

/-- A document that was read has a root. -/
theorem Document.exists_rootElement {text : String} {d : Document} (h : Document.read? text = some d) :
    ∃ root, d.rootElement? = some root := by
  rw [Document.read?] at h
  simp only [Option.bind_eq_bind, Option.bind_eq_some_iff] at h
  obtain ⟨pieces, -, p, -, h⟩ := h
  split at h
  next hp =>
    cases h
    rw [Bool.and_eq_true, List.any_eq_true] at hp
    rw [← Option.isSome_iff_exists, Document.rootElement?, List.find?_isSome]
    simpa using hp.2
  · cases h

theorem Annotated.roots {d d' : Document} {root root' : Content} (h : Annotated d.children d'.children)
    (hroot : d.rootElement? = some root) (hroot' : d'.rootElement? = some root') : Corresponds root root' := by
  rw [Document.rootElement?, ← List.head?_filter] at hroot hroot'
  have hall := h.corresponds
  generalize d.children.filter Content.isElement = es at hroot hall
  generalize d'.children.filter Content.isElement = es' at hroot' hall
  cases hall with
  | nil => cases hroot
  | cons hz _ =>
    cases hroot
    cases hroot'
    exact hz

end Crosswalk.Xml
