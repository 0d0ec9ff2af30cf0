import Crosswalk.Generator.Template
import Crosswalk.Namespaces
import Mathlib.Data.List.Basic

/-!
# What templates can become

Any text may stand in the holes of a template. Whether what it becomes is absolute does not depend on
that if the characters around the holes make it so, and then a single specimen tells.
-/

namespace Crosswalk

namespace Template

/-- A text that a template becomes when its holes are filled. -/
inductive Fills : List Piece → List Char → Prop
  | nil : Fills [] []
  | char {ps : List Piece} {text : List Char} (c : Char) (rest : Fills ps text) :
    Fills (.char c :: ps) (c :: text)
  | hole {ps : List Piece} {text : List Char} (name value : List Char) (rest : Fills ps text) :
    Fills (.hole name :: ps) (value ++ text)

variable {ps qs : List Piece} {text : List Char}

theorem Fills.split (h : Fills (ps ++ qs) text) : ∃ t u, text = t ++ u ∧ Fills ps t ∧ Fills qs u := by
  induction ps generalizing text with
  | nil => exact ⟨[], text, rfl, .nil, h⟩
  | cons p ps ih =>
    cases h with
    | char c rest =>
      obtain ⟨t, u, rfl, ht, hu⟩ := ih rest
      exact ⟨c :: t, u, rfl, .char c ht, hu⟩
    | hole name value rest =>
      obtain ⟨t, u, rfl, ht, hu⟩ := ih rest
      exact ⟨value ++ t, u, (List.append_assoc ..).symm, .hole name value ht, hu⟩

theorem Fills.eq_of_chars {cs : List Char} (h : Fills (cs.map .char) text) : text = cs := by
  induction cs generalizing text with
  | nil =>
    cases h
    rfl
  | cons c cs ih =>
    cases h with
    | char c rest => rw [ih rest]

/-- A piece, with a letter for a hole. -/
def Piece.shape : Piece → Char
  | char c => c
  | hole _ => 'x'

theorem fills_shape (ps : List Piece) : Fills ps (ps.map Piece.shape) := by
  induction ps with
  | nil => exact .nil
  | cons p ps ih =>
    cases p with
    | char c => exact .char c ih
    | hole name => exact .hole name ['x'] ih

/-- What stands in the shape without that letter stands in the template. -/
theorem eq_chars_of_shape {cs : List Char} (h : ps.map Piece.shape = cs) (hx : 'x' ∉ cs) :
    ps = cs.map .char := by
  subst h
  rw [List.map_map]
  refine (List.map_id ps).symm.trans (List.map_congr_left fun p hp => ?_)
  cases p with
  | char c => rfl
  | hole name => exact absurd (List.mem_map.2 ⟨_, hp, rfl⟩) hx

theorem Fills.of_shape {before after needle : List Char} (h : Fills ps text)
    (hshape : ps.map Piece.shape = before ++ needle ++ after) (hx : 'x' ∉ needle) :
    ∃ t u, text = t ++ needle ++ u ∧ (before = [] → t = []) := by
  obtain ⟨front, qs, rfl, hfront, hqs⟩ := List.map_eq_append_iff.1 hshape
  obtain ⟨ps, middle, rfl, hps, hmiddle⟩ := List.map_eq_append_iff.1 hfront
  obtain ⟨_, u, rfl, hfront, -⟩ := h.split
  obtain ⟨t, m, rfl, ht, hm⟩ := hfront.split
  rw [eq_chars_of_shape hmiddle hx] at hm
  refine ⟨t, u, by rw [hm.eq_of_chars], ?_⟩
  rintro rfl
  rw [List.map_eq_nil_iff.1 hps] at ht
  cases ht
  rfl

/-- The template with a letter in every hole. -/
def specimen (template : String) : String :=
  String.ofList ((pieces template.toList).map Piece.shape)

/-- The specimen is absolute just if everything is that begins with a filled template. -/
theorem isAbsolute_specimen_iff {template : String} :
    Namespaces.isAbsolute (specimen template) = true ↔
      ∀ text more, Fills (pieces template.toList) text →
        Namespaces.isAbsolute (String.ofList (text ++ more)) = true := by
  constructor
  · intro h text more hfills
    simp only [Namespaces.isAbsolute, Bool.or_eq_true, Text.occurs_iff, Text.startsWith_iff, specimen,
      String.toList_ofList] at h ⊢
    have hstart {start : List Char} (hx : 'x' ∉ start)
        (h : ∃ after, (pieces template.toList).map Piece.shape = start ++ after) :
        ∃ after, text ++ more = start ++ after := by
      obtain ⟨after, h⟩ := h
      obtain ⟨t, u, rfl, ht⟩ := hfills.of_shape (h.trans (List.append_assoc [] _ _).symm) hx
      exact ⟨u ++ more, by rw [ht rfl]; simp⟩
    rcases h with (⟨before, after, h⟩ | h) | h
    · obtain ⟨t, u, rfl, -⟩ := hfills.of_shape h (by decide)
      exact .inl (.inl ⟨t, u ++ more, by simp⟩)
    · exact .inl (.inr (hstart (by decide) h))
    · exact .inr (hstart (by decide) h)
  · intro h
    have hspecimen := h _ [] (fills_shape _)
    rwa [List.append_nil] at hspecimen

end Template

end Crosswalk
