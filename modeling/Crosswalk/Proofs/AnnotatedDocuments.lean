import Crosswalk.Generator.PolicyLayout
import Crosswalk.Proofs.AnnotatedLayouts

/-!
# Annotated mapping and policy documents

A document with notes written into it is read with the same fault as without them, or with a result. The results
are the same unless a note stands in one of the texts that are read, or before it: of such a text only what comes
before the first note is read. So the notes between elements mean nothing, and those inside texts cut them off.

Of two generators of one name a policy keeps the later, and what is cut off in the earlier does not matter.
-/

namespace Crosswalk

/-! ## Policies put together -/

namespace GeneratorPolicy

theorem get?_insert (policy : GeneratorPolicy) (spec : GeneratorSpec) (name : String) :
    (policy.insert spec).get? name = if name = spec.name then some spec else policy.get? name :=
  Table.get?_insert policy.generators spec.name name spec

theorem eq_of_get?_eq {policy policy' : GeneratorPolicy} (h : Table.Ascends policy.generators.entries)
    (h' : Table.Ascends policy'.generators.entries) (hclasses : policy.classes = policy'.classes)
    (hget : ∀ name, policy.get? name = policy'.get? name) : policy = policy' := by
  obtain ⟨⟨entries⟩, classes⟩ := policy
  obtain ⟨⟨entries'⟩, classes'⟩ := policy'
  obtain rfl := Table.eq_of_lookup_eq h h' hget
  obtain rfl := hclasses
  rfl

theorem foldl_insert (specs : List GeneratorSpec) (policy : GeneratorPolicy)
    (h : Table.Ascends policy.generators.entries) :
    Table.Ascends (specs.foldl insert policy).generators.entries ∧
      (specs.foldl insert policy).classes = policy.classes := by
  induction specs generalizing policy with
  | nil => exact ⟨h, rfl⟩
  | cons spec specs ih => exact ih _ (Table.ascends_insertEntry h _ _)

/-- Policies that were read are told by what is found under each name. -/
theorem foldl_insert_eq_iff {specs specs' : List GeneratorSpec} :
    specs.foldl insert empty = specs'.foldl insert empty ↔
      ∀ name, (specs.foldl insert empty).get? name = (specs'.foldl insert empty).get? name := by
  refine ⟨fun h name => by rw [h], fun h => ?_⟩
  have hleft := foldl_insert specs empty .nil
  have hright := foldl_insert specs' empty .nil
  exact eq_of_get?_eq hleft.1 hright.1 (hleft.2.trans hright.2.symm) h

end GeneratorPolicy

/-! ## Reading policies -/

namespace Layout

open Crosswalk.Xml (Content Corresponds pairs pairsNamed)

variable {c d : Content}

theorem readBody_sameIff (h : Corresponds c d) (name : String) :
    SameIff (KeepsTexts .spec c d) (readBody name c) (readBody name d) := by
  rw [readBody, readBody, h.elementsNamed_left, h.elementsNamed_right, h.elementsNamed_left,
    h.elementsNamed_right, keepsTexts_iff .spec]
  rcases hpatterns : pairsNamed c d "pattern" with _ | ⟨⟨a, b⟩, zs⟩
  · rcases hcustoms : pairsNamed c d "custom" with _ | ⟨⟨a', b'⟩, ws⟩
    · exact .error _
    · have hcustom : Corresponds a' b' := h.of_mem_pairsNamed (hcustoms ▸ List.mem_cons_self)
      simp only [List.map_nil, List.map_cons, List.head?_nil, List.head?_cons, optional?_eq hcustom]
      split
      · exact .ok (by simp [hpatterns])
      · exact .error _
  · rcases pairsNamed c d "custom" with _ | ⟨w, ws⟩
    · exact .ok (by simp [hpatterns])
    · exact .error _

/-- Two generators that were read of an element and its counterpart. -/
structure ReadFrom (z : Content × Content) (r : GeneratorSpec × GeneratorSpec) : Prop where
  name : optional? z.1 "name" = some r.1.name
  name_eq : r.2.name = r.1.name
  eq_iff : r.1 = r.2 ↔ KeepsTexts .spec z.1 z.2

theorem readSpec_agree (h : Corresponds c d) :
    Agree (fun spec spec' => ReadFrom (c, d) (spec, spec')) (readSpec c) (readSpec d) := by
  rw [readSpec, readSpec, optional?_eq h, optional?_eq h, flag_eq h, flag_eq h]
  split
  · exact .error _
  next name hname =>
    refine (readBody_sameIff h name).bind fun body body' hbody => .ok ⟨hname, rfl, ?_⟩
    simp [hbody]

section

variable {z : Content × Content} {zs : List (Content × Content)} {r : GeneratorSpec × GeneratorSpec}
  {rs : List (GeneratorSpec × GeneratorSpec)}

theorem any_name_eq_iff (hz : ReadFrom z r) (h : List.Forall₂ ReadFrom zs rs) :
    (zs.any fun w => optional? w.1 "name" == optional? z.1 "name") = true ↔
      ∃ r' ∈ rs, r'.1.name = r.1.name := by
  simp only [List.any_eq_true, hz.name, beq_iff_eq]
  induction h with
  | nil => simp
  | cons hr' _ ih => simp only [List.mem_cons, exists_eq_or_imp, ih, hr'.name, Option.some.injEq]

/-- What is found in two policies after generators were added that were read side by side. Only the latest
generators of each name are found, and those in place before under the other names. -/
theorem foldl_get?_eq_iff (h : List.Forall₂ ReadFrom zs rs) (policy policy' : GeneratorPolicy) :
    (∀ name, ((rs.map Prod.fst).foldl GeneratorPolicy.insert policy).get? name =
        ((rs.map Prod.snd).foldl GeneratorPolicy.insert policy').get? name) ↔
      (∀ z ∈ latestPairs zs, KeepsTexts .spec z.1 z.2) ∧
        ∀ name, (∀ r ∈ rs, r.1.name ≠ name) → policy.get? name = policy'.get? name := by
  induction h generalizing policy policy' with
  | nil => simp [latestPairs]
  | @cons z r zs rs hr hrest ih =>
    have hget (name : String) : (policy.insert r.1).get? name = (policy'.insert r.2).get? name ↔
        if name = r.1.name then KeepsTexts .spec z.1 z.2 else policy.get? name = policy'.get? name := by
      rw [GeneratorPolicy.get?_insert, GeneratorPolicy.get?_insert, hr.name_eq]
      split
      · rw [Option.some.injEq, hr.eq_iff]
      · rfl
    rw [List.map_cons, List.map_cons, List.foldl_cons, List.foldl_cons, ih, latestPairs]
    simp only [hget, List.forall_mem_cons]
    split
    next hlater =>
      obtain ⟨r', hr', heq⟩ := (any_name_eq_iff hr hrest).1 hlater
      have hne {name : String} (hnone : ∀ r ∈ rs, r.1.name ≠ name) : name ≠ r.1.name :=
        fun h => hnone r' hr' (heq.trans h.symm)
      refine and_congr_right fun _ => forall_congr' fun name => ?_
      constructor
      · intro hall hnone
        simpa [hne hnone.2] using hall hnone.2
      · intro hall hnone
        simpa [hne hnone] using hall ⟨(hne hnone).symm, hnone⟩
    next hlast =>
      have hnone : ∀ r' ∈ rs, r'.1.name ≠ r.1.name :=
        fun r' hr' heq => hlast ((any_name_eq_iff hr hrest).2 ⟨r', hr', heq⟩)
      rw [List.forall_mem_cons]
      constructor
      · rintro ⟨hlatest, hall⟩
        refine ⟨⟨by simpa using hall _ hnone, hlatest⟩, fun name hname => ?_⟩
        simpa [hname.1.symm] using hall name hname.2
      · rintro ⟨⟨hz, hlatest⟩, hall⟩
        refine ⟨hlatest, fun name hname => ?_⟩
        split
        · exact hz
        next hne => exact hall name ⟨fun h => hne h.symm, hname⟩

end

theorem readPolicy_tracks (h : Corresponds c d) : Tracks .policy readPolicy c d := by
  rw [Tracks, readPolicy, readPolicy, h.localName_eq, h.elementsNamed_left, h.elementsNamed_right]
  split
  · exact .error _
  · refine (Agree.mapM fun z hz => readSpec_agree (h.of_mem_pairsNamed hz)).bind ?_
    rintro _ _ ⟨rs, rfl, rfl, hrs⟩
    refine .ok ?_
    rw [GeneratorPolicy.foldl_insert_eq_iff, foldl_get?_eq_iff hrs, keepsTexts_iff .policy]
    simp

/-! ## Reading texts -/

theorem readText_sameIff {α : Type} {kind : Kind} {document : String} {read : Content → Except LayoutFault α}
    {text text' : String} {d d' : Xml.Document} {root root' : Content}
    (hd : Xml.Document.read? text = some d) (hd' : Xml.Document.read? text' = some d')
    (hroot : d.rootElement? = some root) (hroot' : d'.rootElement? = some root')
    (h : Tracks kind read root root') :
    SameIff (KeepsTexts kind root root') (readText document read text) (readText document read text') := by
  rw [readText, readText, hd, hd', Option.bind_some, Option.bind_some, hroot, hroot']
  exact h.mapError _

end Layout

section

open Layout (KeepsTexts)
open Xml (Annotated Content Document)

/-- A mapping document and a policy document are read alike with notes and without: with the same fault, or with
results that are the same just if no note has cut off a text that is read. -/
theorem read_annotated {text text' : String} {d d' : Document} (h : Document.read? text = some d)
    (h' : Document.read? text' = some d') (hd : Annotated d.children d'.children) :
    ∃ root root', d.rootElement? = some root ∧ d'.rootElement? = some root' ∧
      SameIff (KeepsTexts .mappings root root') (MappingDocument.read text) (MappingDocument.read text') ∧
      SameIff (KeepsTexts .policy root root') (GeneratorPolicy.read text) (GeneratorPolicy.read text') := by
  obtain ⟨root, hroot⟩ := Document.exists_rootElement h
  obtain ⟨root', hroot'⟩ := Document.exists_rootElement h'
  have hroots := hd.roots hroot hroot'
  exact ⟨root, root', hroot, hroot',
    Layout.readText_sameIff h h' hroot hroot' (Layout.readMappings_tracks hroots),
    Layout.readText_sameIff h h' hroot hroot' (Layout.readPolicy_tracks hroots)⟩

/-- A policy with one generator, whose pattern is written in its own way. -/
def patternText (pattern : String) : String :=
  "<generator_policy><generator name=\"URI\"><pattern>" ++ pattern ++ "</pattern></generator></generator_policy>"

def patternRoot (pattern : List Content) : Content :=
  .element ⟨none, "generator_policy"⟩ [] [] [
    .element ⟨none, "generator"⟩ [] [⟨⟨none, "name"⟩, "URI"⟩] [.element ⟨none, "pattern"⟩ [] [] pattern]]

theorem annotated_patternRoot {pattern pattern' : List Content} (h : Annotated pattern pattern') :
    Annotated [patternRoot pattern] [patternRoot pattern'] :=
  .within (.within (.within h .nil) .nil) .nil

theorem keepsTexts_patternRoot (text : String) (content content' : List Content) :
    KeepsTexts .policy (patternRoot (.text text :: content)) (patternRoot (.text text :: content')) := by
  refine .intro nofun (List.forall_mem_singleton.2 (List.forall_mem_singleton.2 ?_))
  refine .intro nofun (List.forall_mem_singleton.2 (List.forall_mem_singleton.2 ?_))
  exact Layout.keepsTexts_text.2 rfl

/-- The policy with that pattern alone. -/
def patternPolicy (pattern : String) : GeneratorPolicy :=
  .insert .empty ⟨"URI", none, false, false, .pattern pattern⟩

/-- A comment after the pattern does no harm. -/
theorem read_annotated_after_pattern :
    ∃ d d', Document.read? (patternText "p/{id}") = some d ∧
      Document.read? (patternText "p/{id}<!-- key -->") = some d' ∧
      Annotated d.children d'.children ∧
      GeneratorPolicy.read (patternText "p/{id}<!-- key -->") =
        GeneratorPolicy.read (patternText "p/{id}") := by
  have h : Document.read? (patternText "p/{id}") = some ⟨[patternRoot [.text "p/{id}"]]⟩ := by
    rfl
  have h' : Document.read? (patternText "p/{id}<!-- key -->") =
      some ⟨[patternRoot [.text "p/{id}", .comment " key "]]⟩ := by
    rfl
  have hd : Annotated [patternRoot [.text "p/{id}"]] [patternRoot [.text "p/{id}", .comment " key "]] :=
    annotated_patternRoot (.keep rfl (.note rfl .nil))
  obtain ⟨root, root', hroot, hroot', -, hpolicy⟩ := read_annotated h h' hd
  cases hroot
  cases hroot'
  exact ⟨_, _, h, h', hd, (hpolicy.eq (keepsTexts_patternRoot "p/{id}" [] [.comment " key "])).symm⟩

/-- A comment inside the pattern cuts it off, and the policy is another one. -/
theorem pattern_cut_by_comment :
    ∃ d d', Document.read? (patternText "p/{id}") = some d ∧
      Document.read? (patternText "p/<!-- key -->{id}") = some d' ∧
      Annotated d.children d'.children ∧
      GeneratorPolicy.read (patternText "p/{id}") = .ok (patternPolicy "p/{id}") ∧
      GeneratorPolicy.read (patternText "p/<!-- key -->{id}") = .ok (patternPolicy "p/") ∧
      patternPolicy "p/{id}" ≠ patternPolicy "p/" := by
  refine ⟨⟨[patternRoot [.text "p/{id}"]]⟩, ⟨[patternRoot [.text "p/", .comment " key ", .text "{id}"]]⟩,
    by rfl, by rfl, annotated_patternRoot ?_, by rfl, by rfl, fun h => ?_⟩
  · exact .split (t := "p/") (u := "{id}") rfl (.keep rfl .nil)
  · have hbody := congrArg (fun policy => (policy.get? "URI").map (·.body)) h
    revert hbody
    decide

end

end Crosswalk
